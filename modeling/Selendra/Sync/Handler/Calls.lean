import Selendra.Sync.Handler.Finalize
import Selendra.Sync.Handler.RequestHandler
import Selendra.Sync.Forest.Queries
import Selendra.Control.Steps

/-! # The calls of the sync handler

`Handler` of `sync/handler/mod.rs` whole: what the sync service does with the data of peers,
the blocks it imports and the justifications of the user. Each method runs on `&mut self` and
returns early with `?`, so a method is an `EStateM` program: what it did before an error is
kept. The verifier is a parameter, with a state of its own; the block importer is the list of
blocks it was handed, and the sync oracle the list of how far behind finalization it was told
we are.

Every method is a sequence of the forest's own methods and of `try_finalize`, so from a new
handler, over every sequence of calls, with any answers of the verifier and any database, the
forest stays reachable from `Forest::new` and the finalizer receives justifications of
strictly increasing blocks, all below every block the forest still holds
(`syncHandler_finalizes_in_order`). A peer whose state shows it a session or more behind is
answered with the justification of the last block of its session and one from the next
session, from which it can go on (`handleState_response_catches_up`). -/

namespace Selendra.Sync

/-- A header the verifier accepted, with the proof of an equivocation it found, if any. -/
structure VerifiedHeader (H P : Type) where
  header : H
  maybeEquivocationProof : Option P

/-- `JustificationVerifier` and `HeaderVerifier` over the verifier's state `V`: each
verification may change the state, whether it succeeds or not. -/
structure Verifier (V J H P JE HE : Type) where
  verifyJustification : V → J → Except JE J × V
  verifyHeader : V → H → Bool → Except HE (VerifiedHeader H P) × V
  ownBlock : V → H → Bool

/-- The handler: the part `try_finalize` works on, the verifier's state, the blocks handed to
the block importer with whether they are our own, and what the sync oracle was told. -/
structure SyncHandler (V B I J H E Z : Type) extends Handler B I J H E Z where
  verifier : V
  imported : List (B × Bool)
  behind : List Nat

/-- What actions can the handler recommend as a reaction to some data. -/
inductive HandleStateAction (J : Type) where
  /-- A response for the peer that sent us the data. -/
  | response (justification : J) (otherJustification : Option J)
  /-- The state suggests we should try requesting a chain extension. -/
  | extendChain
  /-- Do nothing. -/
  | noop

def HandleStateAction.maybeExtend {J : Type} (newInfo : Bool) : HandleStateAction J :=
  if newInfo then .extendChain else .noop

namespace SyncHandler

/-- What can go wrong when handling a piece of data; `forestPanic` is the `panic!` of
`Forest::try_finalize`. -/
inductive Error (E Z JE HE : Type) where
  | justificationVerifier (e : JE)
  | headerVerifier (e : HE)
  | chainStatus (e : E)
  | finalizer (e : Z)
  | forest (e : Selendra.Sync.Error)
  | forestPanic (msg : String)
  | requestHandlerError (e : Handler.RequestHandlerError E)
  | missingJustification
  | blockNotImportable (id : BlockId)
  | headerNotRequired (id : BlockId)
  | missingImportedBlock (id : BlockId)

/-- The errors of `try_finalize` are the handler's. -/
def Error.ofTryFinalize {E Z JE HE : Type} : Handler.Error E Z → Error E Z JE HE
  | .chainStatus e => .chainStatus e
  | .finalizer e => .finalizer e
  | .forestPanic msg => .forestPanic msg

/-- The methods of the handler. -/
abbrev HandlerM (V B I J H E Z JE HE : Type) :=
  EStateM (Error E Z JE HE) (SyncHandler V B I J H E Z)

/-- One call the service makes, or the database moving on under the handler. -/
inductive Call (B I J H E : Type) where
  | blockImported (header : H)
  | handleRequest (request : Request J H)
  | handleChainExtensionRequest (state : State J H)
  | handleJustificationFromUser (justification : J)
  | handleStateResponse (justification : J) (maybeJustification : Option J) (peer : I)
  | handleRequestResponse (responseItems : List (ResponseItem B J H)) (peer : I)
  | handleState (state : State J H) (peer : I)
  | handleInternalRequest (header : H)
  | handleOwnBlock (block : B)
  | database (chainStatus : ChainStatus B J H E)

set_option linter.unusedSectionVars false

variable {V B I J H E Z P JE HE α : Type} [DecidableEq I] [LruCache.Ops I Unit] [Header H] [Justification J H]
  [Block B H]

open Handler (numberOf)

/-! ## The parts of a method -/

section Parts

variable (verifier : Verifier V J H P JE HE)

/-- A method of the forest, on `self.forest`. -/
def onForest (g : Forest I H J → Except Selendra.Sync.Error α × Forest I H J) :
    HandlerM V B I J H E Z JE HE α :=
  EStateM.focus (·.forest) (fun h forest => { h with forest }) .forest g

def tryFinalize : HandlerM V B I J H E Z JE HE Unit :=
  EStateM.focus (·.toHandler) (fun h core => { h with toHandler := core }) Error.ofTryFinalize
    Handler.tryFinalize

def verifyJustification (justification : J) : HandlerM V B I J H E Z JE HE J :=
  EStateM.focus (·.verifier) (fun h verifier => { h with verifier }) .justificationVerifier
    (verifier.verifyJustification · justification)

def verifyHeader (header : H) (justCreated : Bool) :
    HandlerM V B I J H E Z JE HE (VerifiedHeader H P) :=
  EStateM.focus (·.verifier) (fun h verifier => { h with verifier }) .headerVerifier
    (verifier.verifyHeader · header justCreated)

/-- `self.block_importer.import_block(block, own)`. -/
def importBlock (block : B) (own : Bool) : HandlerM V B I J H E Z JE HE Unit :=
  modify fun h => { h with imported := h.imported ++ [(block, own)] }

/-- `self.sync_oracle.update_behind(self.forest.behind_finalization())`. -/
def updateBehind : HandlerM V B I J H E Z JE HE Unit :=
  modify fun h => { h with behind := h.behind ++ [h.forest.behindFinalization] }

end Parts

/-! ## The methods -/

section Methods

variable (verifier : Verifier V J H P JE HE)

/-- Inform the handler that a block has been imported. If we are the author, this method
prepares the block for broadcast and returns it. -/
def blockImported (header : H) :
    HandlerM V B I J H E Z JE HE (Option (List (ResponseItem B J H))) := do
  onForest fun f => f.updateBody header
  tryFinalize
  let h ← get
  if verifier.ownBlock h.verifier header then
    match h.chainStatus.block (Header.id header) with
    | .ok (some block) => pure (some (Handler.blockToResponse block))
    | _ => throw (.missingImportedBlock (Header.id header))
  else pure none

/-- Handle a request for potentially substantial amounts of data: do nothing, request a block
we are interested in, or send a response. -/
def handleRequest (request : Request J H) :
    HandlerM V B I J H E Z JE HE (Handler.Action B J H × Option P) := do
  let h ← get
  let requestHandler : Handler.RequestHandler B J H E := ⟨h.chainStatus, h.sessionInfo⟩
  match requestHandler.action request with
  | .error e => throw (.requestHandlerError e)
  | .ok (.requestBlock unverifiedHeader) =>
    let verified ← verifyHeader verifier unverifiedHeader false
    let wanted ← onForest fun f => f.updateHeader verified.header none true
    pure (if wanted then .requestBlock unverifiedHeader else .noop,
      verified.maybeEquivocationProof)
  | .ok action => pure (action, none)

/-- Handle a chain extension request: a request for our favourite block with their favourite
block as the top imported; if that sends nothing or our favourite is not a descendant of
their top justification, a request for their top justification's block. -/
def handleChainExtensionRequest (state : State J H) :
    HandlerM V B I J H E Z JE HE (Handler.Action B J H) := do
  let h ← get
  let fallback : Request J H :=
    ⟨Justification.header state.topJustification,
      .topImported (Header.id (Justification.header state.topJustification)), state⟩
  match ← EStateM.attempt (handleRequest verifier
      ⟨h.forest.favourite, .topImported (Header.id state.favouriteBlock), state⟩) with
  | .ok (.noop, _) | .error (.requestHandlerError .rootMismatch) =>
    return (← handleRequest verifier fallback).1
  | .ok (action, _) => pure action
  | .error e => throw e

/-- Handle a single justification: returns whether it was higher than the highest known. -/
def handleJustification (justification : J) (maybePeer : Option I) :
    HandlerM V B I J H E Z JE HE Bool := do
  let justification ← verifyJustification verifier justification
  let newHighest ← onForest fun f => f.updateJustification justification maybePeer
  tryFinalize
  updateBehind
  pure newHighest

def handleJustificationFromUser (justification : J) : HandlerM V B I J H E Z JE HE Bool :=
  handleJustification verifier justification none

/-- The loop of `handle_state_response`: it stops at the first error, and reports it. -/
def handleStateResponseLoop (peer : I) :
    List J → Bool → HandlerM V B I J H E Z JE HE (Bool × Option (Error E Z JE HE))
  | [], newHighest => pure (newHighest, none)
  | justification :: justifications, newHighest => do
    match ← EStateM.attempt (handleJustification verifier justification (some peer)) with
    | .ok highest => handleStateResponseLoop peer justifications (highest || newHighest)
    | .error e => pure (newHighest, some e)

/-- Handle a state response: whether it gave a new highest justified block, and the error
that stopped it, if any. -/
def handleStateResponse (justification : J) (maybeJustification : Option J) (peer : I) :
    HandlerM V B I J H E Z JE HE (Bool × Option (Error E Z JE HE)) :=
  handleStateResponseLoop verifier peer (justification :: maybeJustification.toList) false

/-- `handle_header`: verify the header and give it to the forest; a header the forest does not
want is an error, unless its parent is the block imported just before. The proof of an
equivocation is pushed as soon as the verifier finds it, so it comes with any outcome after. -/
def handleHeader (header : H) (peer : I) (lastImported : Option BlockId) :
    HandlerM V B I J H E Z JE HE (Option P × Except (Error E Z JE HE) Unit) := do
  match ← EStateM.attempt (verifyHeader verifier header false) with
  | .error e => pure (none, .error e)
  | .ok verified =>
    match ← EStateM.attempt (onForest fun f => f.updateHeader verified.header (some peer) false) with
    | .error e => pure (verified.maybeEquivocationProof, .error e)
    | .ok _ =>
      let h ← get
      if !h.forest.importable (Header.id verified.header) &&
          !Handler.followsLastImported lastImported verified.header then
        pure (verified.maybeEquivocationProof,
          .error (.headerNotRequired (Header.id verified.header)))
      else pure (verified.maybeEquivocationProof, .ok ())

/-- The loop of `handle_request_response` over the items, with `last_imported`, `new_highest`
and the equivocation proofs found so far; it stops at the first error, and reports it. -/
def handleRequestResponseLoop (peer : I) :
    List (ResponseItem B J H) → Option BlockId → Bool → List P →
      HandlerM V B I J H E Z JE HE (Bool × List P × Option (Error E Z JE HE))
  | [], _, newHighest, proofs => pure (newHighest, proofs, none)
  | .justification j :: items, lastImported, newHighest, proofs => do
    match ← EStateM.attempt (handleJustification verifier j (some peer)) with
    | .ok highest =>
      handleRequestResponseLoop peer items lastImported (newHighest || highest) proofs
    | .error e => pure (newHighest, proofs, some e)
  | .header header :: items, lastImported, newHighest, proofs => do
    if (← get).forest.skippable (Header.id header) then
      handleRequestResponseLoop peer items lastImported newHighest proofs
    else
      let (proof, outcome) ← handleHeader verifier header peer none
      match outcome with
      | .error e => pure (newHighest, proofs ++ proof.toList, some e)
      | .ok () =>
        handleRequestResponseLoop peer items lastImported newHighest (proofs ++ proof.toList)
  | .block b :: items, lastImported, newHighest, proofs => do
    if (← get).forest.skippable (Header.id (Block.header b)) then
      handleRequestResponseLoop peer items lastImported newHighest proofs
    else
      let (proof, outcome) ← handleHeader verifier (Block.header b) peer lastImported
      match outcome with
      | .error (.headerNotRequired id) =>
        pure (newHighest, proofs ++ proof.toList, some (.blockNotImportable id))
      | .error e => pure (newHighest, proofs ++ proof.toList, some e)
      | .ok () => do
        importBlock b false
        handleRequestResponseLoop peer items (some (Header.id (Block.header b))) newHighest
          (proofs ++ proof.toList)

/-- Handle a request response: whether it gave a new highest justified block, the
equivocations found, and the error that stopped it, if any. The blocks go to the importer. -/
def handleRequestResponse (responseItems : List (ResponseItem B J H)) (peer : I) :
    HandlerM V B I J H E Z JE HE (Bool × List P × Option (Error E Z JE HE)) :=
  handleRequestResponseLoop verifier peer responseItems none false []

/-- The justification of the last block of a session, which the database must have. -/
def lastJustificationUnverified (session : SessionId) : HandlerM V B I J H E Z JE HE J := do
  let h ← get
  match h.chainStatus.finalizedAt (h.sessionInfo.lastBlockOfSession session) with
  | .error e => throw (.chainStatus e)
  | .ok (.finalizedWithJustification justification) => pure justification
  | .ok _ => throw .missingJustification

/-- Handle a state broadcast: a peer ahead of us gives us its top justification and its
favourite block; a peer behind us in our session gets our top justification; a peer a session
behind gets the justification of the last block of its session and our top one, and a peer
further behind the justifications of the last blocks of its session and of the next one. -/
def handleState (state : State J H) (peer : I) :
    HandlerM V B I J H E Z JE HE (HandleStateAction J × Option P) := do
  let h ← get
  let remoteTopNumber := numberOf state.topJustification
  match h.chainStatus.topFinalized with
  | .error e => throw (.chainStatus e)
  | .ok localTop =>
    let localTopNumber := numberOf localTop
    let remoteSession := h.sessionInfo.sessionIdFromBlockNum remoteTopNumber
    let localSession := h.sessionInfo.sessionIdFromBlockNum localTopNumber
    -- `local_session.0.checked_sub(remote_session.0)`
    if localSession.n < remoteSession.n then
      -- the justification first, as the header might be too far in the future
      let higherJustification ← handleJustification verifier state.topJustification (some peer)
      let verified ← verifyHeader verifier state.favouriteBlock false
      let newAbove ← onForest fun f => f.updateHeader verified.header (some peer) false
      pure (.maybeExtend (higherJustification || newAbove), verified.maybeEquivocationProof)
    else
      match localSession.n - remoteSession.n with
      | 0 =>
        if remoteTopNumber ≥ localTopNumber then
          let verified ← verifyHeader verifier state.favouriteBlock false
          let higherJustification ←
            handleJustification verifier state.topJustification (some peer)
          let newAbove ← onForest fun f => f.updateHeader verified.header (some peer) false
          pure (.maybeExtend (higherJustification || newAbove), verified.maybeEquivocationProof)
        else pure (.response localTop none, none)
      | 1 => do
        let justification ← lastJustificationUnverified remoteSession
        pure (.response justification (some localTop), none)
      | _ + 2 => do
        let justification ← lastJustificationUnverified remoteSession
        let next ← lastJustificationUnverified ⟨remoteSession.n + 1⟩
        pure (.response justification (some next), none)

/-- Handle an internal block request: whether this was the first time something indicated
interest in this block. -/
def handleInternalRequest (header : H) : HandlerM V B I J H E Z JE HE (Bool × Option P) := do
  let verified ← verifyHeader verifier header false
  let shouldRequest ← onForest fun f => f.updateHeader verified.header none true
  pure (shouldRequest, verified.maybeEquivocationProof)

/-- Handle a block freshly created by this node: import it, with the proof of an equivocation
if the verifier found one. -/
def handleOwnBlock (block : B) : HandlerM V B I J H E Z JE HE (Option P) := do
  let verified ← verifyHeader verifier (Block.header block) true
  importBlock block true
  pure verified.maybeEquivocationProof

/-- A call, its result dropped. -/
def call : Call B I J H E → HandlerM V B I J H E Z JE HE Unit
  | .blockImported header => discard (blockImported verifier header)
  | .handleRequest request => discard (handleRequest verifier request)
  | .handleChainExtensionRequest state => discard (handleChainExtensionRequest verifier state)
  | .handleJustificationFromUser justification =>
    discard (handleJustificationFromUser verifier justification)
  | .handleStateResponse justification maybeJustification peer =>
    discard (handleStateResponse verifier justification maybeJustification peer)
  | .handleRequestResponse responseItems peer =>
    discard (handleRequestResponse verifier responseItems peer)
  | .handleState state peer => discard (handleState verifier state peer)
  | .handleInternalRequest header => discard (handleInternalRequest verifier header)
  | .handleOwnBlock block => discard (handleOwnBlock verifier block)
  | .database chainStatus => modify fun h => { h with chainStatus }

/-- The handler after a sequence of calls. -/
def run (h : SyncHandler V B I J H E Z) (calls : List (Call B I J H E)) :
    SyncHandler V B I J H E Z :=
  EStateM.runAll (call verifier) h calls

end Methods

end SyncHandler

/-! ## Finality only moves forward -/

section Finality

set_option linter.unusedSectionVars false

variable {B I J H E Z : Type} [DecidableEq I] [LruCache.Ops I Unit] [Header H] [Justification J H]

open Handler (numberOf)

/-- One step of what finality rests on, the forest and the justifications the finalizer has
taken: the forest takes a step, or hands out the justification of a block, which the
finalizer takes. -/
inductive Advance : Forest I H J × List J → Forest I H J × List J → Prop
  | step {f g : Forest I H J} {finalized : List J} :
      Forest.Step f g → Advance (f, finalized) (g, finalized)
  | finalize {f g : Forest I H J} {number : Nat} {j : J} {finalized : List J} :
      f.tryFinalize number = .ok (some j, g) → Advance (f, finalized) (g, finalized ++ [j])

/-- Finality in order above the block number `start`: the forest reachable with its root at
or above `start`, and the justifications taken of increasing blocks, above `start` and at or
below the root. -/
structure Ordered (start : Nat) (l : Forest I H J × List J) : Prop where
  reachable : l.1.Reachable
  rootAbove : start ≤ (Header.id l.1.root).number
  increasing : l.2.Pairwise fun a b => numberOf a < numberOf b
  above : ∀ j ∈ l.2, start < numberOf j
  belowRoot : ∀ j ∈ l.2, numberOf j ≤ (Header.id l.1.root).number

theorem ordered_start {f : Forest I H J} (hf : f.Reachable) :
    Ordered (Header.id f.root).number (f, ([] : List J)) where
  reachable := hf
  rootAbove := le_rfl
  increasing := List.Pairwise.nil
  above _ h := absurd h List.not_mem_nil
  belowRoot _ h := absurd h List.not_mem_nil

theorem Ordered.advance {start : Nat} {l l' : Forest I H J × List J} (ho : Ordered start l)
    (ha : Advance l l') : Ordered start l' := by
  cases ha with
  | step hs =>
    -- nothing is finalized, and the root only goes up
    have hle := Forest.Step.root_le ho.reachable.bounded hs
    exact ⟨.step ho.reachable hs, le_trans ho.rootAbove hle, ho.increasing, ho.above,
      fun j hj => le_trans (ho.belowRoot j hj) hle⟩
  | @finalize f g number j finalized ht =>
    -- the block finalized lies above the root, and becomes the root
    obtain ⟨hlt, hroot⟩ := Forest.tryFinalize_above_root ho.reachable.bounded ht
    have hj : numberOf j = (Header.id (Justification.header j)).number := rfl
    refine ⟨.step ho.reachable (.tryFinalize f number (some j, g) ht), ?_, ?_, ?_, ?_⟩
    · show start ≤ (Header.id g.root).number
      rw [hroot]
      exact le_trans ho.rootAbove hlt.le
    · refine List.pairwise_append.mpr ⟨ho.increasing, List.pairwise_singleton _ _, ?_⟩
      intro a ha b hb
      rw [List.mem_singleton.mp hb, hj]
      exact Nat.lt_of_le_of_lt (ho.belowRoot a ha) hlt
    · intro a ha
      rcases List.mem_append.mp ha with ha | ha
      · exact ho.above a ha
      · rw [List.mem_singleton.mp ha, hj]
        exact Nat.lt_of_le_of_lt ho.rootAbove hlt
    · intro a ha
      show numberOf a ≤ (Header.id g.root).number
      rw [hroot, ← hj]
      rcases List.mem_append.mp ha with ha | ha
      · exact le_trans (ho.belowRoot a ha) hlt.le
      · rw [List.mem_singleton.mp ha]

theorem Ordered.advances {start : Nat} {l l' : Forest I H J × List J} (ho : Ordered start l)
    (ha : Relation.ReflTransGen Advance l l') : Ordered start l' := by
  induction ha with
  | refl => exact ho
  | tail _ hs ih => exact ih.advance hs

namespace Handler

/-- The forest and what the finalizer has taken. -/
def ledger (h : Handler B I J H E Z) : Forest I H J × List J := (h.forest, h.finalized)

variable {h h' : Handler B I J H E Z} {number fuel : Nat} {s s' : Nat × Handler B I J H E Z}

theorem advance_finalizeAt_ok {b : Bool} (hr : h.finalizeAt number = .ok (b, h')) :
    Relation.ReflTransGen Advance h.ledger h'.ledger := by
  cases b with
  | false =>
    obtain ⟨rfl, -⟩ := finalizeAt_false hr
    exact .refl
  | true =>
    obtain ⟨j, g, ht, rfl⟩ := finalizeAt_true hr
    exact .single (.finalize ht)

theorem advance_finalizeAt_error {e : Error E Z × Handler B I J H E Z}
    (hr : h.finalizeAt number = .error e) : Relation.ReflTransGen Advance h.ledger e.2.ledger := by
  obtain ⟨err, h'⟩ := e
  rcases finalizeAt_error hr with rfl | ⟨j, g, ht, rfl⟩
  · exact .refl
  · exact .single (.step (.tryFinalize h.forest number (some j, g) ht))

theorem advance_repeatUntil_finalizeNext (hr : Except.repeatUntil finalizeNext fuel s = .ok s') :
    Relation.ReflTransGen Advance s.2.ledger s'.2.ledger :=
  Except.repeatUntil_inv (fun t => Relation.ReflTransGen Advance s.2.ledger t.2.ledger)
    (fun _ _ _ ht hb => by
      rcases finalizeNext_cases hb with ⟨-, rfl, -⟩ | ⟨-, -, hf⟩
      · exact ht
      · exact ht.trans (advance_finalizeAt_ok hf))
    fuel s s' .refl hr

theorem advance_repeatUntil_finalizeNext_error {e : Error E Z × Handler B I J H E Z}
    (hr : Except.repeatUntil finalizeNext fuel s = .error e) :
    Relation.ReflTransGen Advance s.2.ledger e.2.ledger := by
  obtain ⟨t, ht, hb⟩ := Except.repeatUntil_error_inv
    (fun t => Relation.ReflTransGen Advance s.2.ledger t.2.ledger)
    (fun _ _ _ ht hb => by
      rcases finalizeNext_cases hb with ⟨-, rfl, -⟩ | ⟨-, -, hf⟩
      · exact ht
      · exact ht.trans (advance_finalizeAt_ok hf))
    fuel s e .refl hr
  exact ht.trans (advance_finalizeAt_error (finalizeNext_error hb))

theorem advance_tryFinalizeRound {b : Bool} (hr : tryFinalizeRound fuel s = .ok (b, s')) :
    Relation.ReflTransGen Advance s.2.ledger s'.2.ledger := by
  obtain ⟨number, h₁, hl, ⟨-, rfl, -⟩ | ⟨-, -, hf⟩⟩ := tryFinalizeRound_cases hr
  · exact advance_repeatUntil_finalizeNext hl
  · exact (advance_repeatUntil_finalizeNext hl).trans (advance_finalizeAt_ok hf)

theorem advance_tryFinalizeRound_error {e : Error E Z × Handler B I J H E Z}
    (hr : tryFinalizeRound fuel s = .error e) :
    Relation.ReflTransGen Advance s.2.ledger e.2.ledger := by
  rcases tryFinalizeRound_error hr with hl | ⟨number, h₁, hl, hf⟩
  · exact advance_repeatUntil_finalizeNext_error hl
  · exact (advance_repeatUntil_finalizeNext hl).trans (advance_finalizeAt_error hf)

/-- `try_finalize` advances finality, whether it fails or not. -/
theorem advance_tryFinalize (h : Handler B I J H E Z) :
    Relation.ReflTransGen Advance h.ledger h.tryFinalize.2.ledger := by
  unfold tryFinalize tryFinalizeWith
  cases h.chainStatus.topFinalized with
  | error e => exact .refl
  | ok top =>
    dsimp only
    -- every round, done or failed, starts where the one before left finality
    have hround : ∀ (t : Nat × Handler B I J H E Z) b t',
        Relation.ReflTransGen Advance h.ledger t.2.ledger →
        tryFinalizeRound (h.vertexCount + 1) t = .ok (b, t') →
        Relation.ReflTransGen Advance h.ledger t'.2.ledger := by
      intro t b t' ht hb
      exact ht.trans (advance_tryFinalizeRound hb)
    cases hr : Except.repeatUntil (tryFinalizeRound (h.vertexCount + 1)) (h.vertexCount + 1)
        (numberOf top + 1, h) with
    | ok s' => exact Except.repeatUntil_inv _ hround _ _ s' .refl hr
    | error e =>
      obtain ⟨t, ht, hb⟩ := Except.repeatUntil_error_inv _ hround _ _ e .refl hr
      exact ht.trans (advance_tryFinalizeRound_error hb)

end Handler

end Finality

/-! ## Every call advances finality -/

namespace SyncHandler

set_option linter.unusedSectionVars false

variable {V B I J H E Z P JE HE α : Type} [DecidableEq I] [LruCache.Ops I Unit] [Header H] [Justification J H]
  [Block B H]

open Handler (numberOf)
open EStateM (Moves Returns)

/-- Finality advanced from one handler to the other. -/
def Advances (h h' : SyncHandler V B I J H E Z) : Prop :=
  Relation.ReflTransGen Advance h.toHandler.ledger h'.toHandler.ledger

theorem advances_of_steps {h h' : SyncHandler V B I J H E Z}
    (hs : Relation.ReflTransGen Advances h h') : Advances h h' := by
  induction hs with
  | refl => exact Relation.ReflTransGen.refl
  | tail _ hstep ih => exact Relation.ReflTransGen.trans ih hstep

/-- A write that leaves the forest and the finalized justifications as they were. -/
theorem advances_of_ledger_eq {h h' : SyncHandler V B I J H E Z}
    (heq : h'.toHandler.ledger = h.toHandler.ledger) : Relation.ReflTransGen Advances h h' := by
  apply Relation.ReflTransGen.single
  show Relation.ReflTransGen Advance _ _
  rw [heq]

section Moves

variable (verifier : Verifier V J H P JE HE)

theorem moves_onForest {g : Forest I H J → Except Selendra.Sync.Error α × Forest I H J}
    (hg : ∀ f, Forest.Step f (g f).2) :
    Moves Advances (onForest g : HandlerM V B I J H E Z JE HE α) :=
  Moves.focus fun h => .single (.single (.step (hg h.forest)))

theorem moves_tryFinalize : Moves Advances (tryFinalize : HandlerM V B I J H E Z JE HE Unit) :=
  Moves.focus fun h => .single (Handler.advance_tryFinalize h.toHandler)

theorem moves_verifyJustification (justification : J) :
    Moves Advances (verifyJustification verifier justification : HandlerM V B I J H E Z JE HE J) :=
  Moves.focus fun _ => advances_of_ledger_eq rfl

theorem moves_verifyHeader (header : H) (justCreated : Bool) :
    Moves Advances (verifyHeader verifier header justCreated :
      HandlerM V B I J H E Z JE HE (VerifiedHeader H P)) :=
  Moves.focus fun _ => advances_of_ledger_eq rfl

theorem moves_importBlock (block : B) (own : Bool) :
    Moves Advances (importBlock block own : HandlerM V B I J H E Z JE HE Unit) :=
  Moves.modify fun _ => advances_of_ledger_eq rfl

theorem moves_updateBehind : Moves Advances (updateBehind : HandlerM V B I J H E Z JE HE Unit) :=
  Moves.modify fun _ => advances_of_ledger_eq rfl

theorem moves_updateHeader (header : H) (holder : Option I) (required : Bool) :
    Moves Advances (onForest fun f => f.updateHeader header holder required :
      HandlerM V B I J H E Z JE HE Bool) :=
  moves_onForest fun f => .updateHeader f header holder required

theorem moves_blockImported (header : H) :
    Moves Advances (blockImported verifier header :
      HandlerM V B I J H E Z JE HE (Option (List (ResponseItem B J H)))) := by
  unfold blockImported
  refine (moves_onForest fun f => .updateBody f header).bind fun _ =>
    moves_tryFinalize.bind fun _ => Moves.get.bind fun h => Moves.ite ?_ (Moves.pure _)
  split
  · exact Moves.pure _
  · exact Moves.throw _

theorem moves_handleRequest (request : Request J H) :
    Moves Advances (handleRequest verifier request :
      HandlerM V B I J H E Z JE HE (Handler.Action B J H × Option P)) := by
  unfold handleRequest
  refine Moves.get.bind fun h => ?_
  dsimp only
  split
  · exact Moves.throw _
  · exact (moves_verifyHeader verifier _ false).bind fun verified =>
      (moves_updateHeader _ none true).bind fun _ => Moves.pure _
  · exact Moves.pure _

theorem moves_handleChainExtensionRequest (state : State J H) :
    Moves Advances (handleChainExtensionRequest verifier state :
      HandlerM V B I J H E Z JE HE (Handler.Action B J H)) := by
  unfold handleChainExtensionRequest
  refine Moves.get.bind fun h => (moves_handleRequest verifier _).attempt.bind fun r => ?_
  -- the request for their top justification's block, asked after nothing came of ours
  have hfallback := (moves_handleRequest verifier
    (⟨Justification.header state.topJustification,
      .topImported (Header.id (Justification.header state.topJustification)), state⟩ :
        Request J H)).bind fun r => (Moves.pure r.1 :
          Moves Advances (pure r.1 : HandlerM V B I J H E Z JE HE (Handler.Action B J H)))
  split
  case h_1 => exact hfallback
  case h_2 => exact hfallback
  case h_3 => exact Moves.pure _
  case h_4 => exact Moves.throw _

theorem moves_handleJustification (justification : J) (maybePeer : Option I) :
    Moves Advances (handleJustification verifier justification maybePeer :
      HandlerM V B I J H E Z JE HE Bool) := by
  unfold handleJustification
  exact (moves_verifyJustification verifier justification).bind fun verified =>
    (moves_onForest fun f => .updateJustification f verified maybePeer).bind fun _ =>
      moves_tryFinalize.bind fun _ => moves_updateBehind.bind fun _ => Moves.pure _

theorem moves_handleStateResponseLoop (peer : I) :
    ∀ (justifications : List J) (newHighest : Bool),
      Moves Advances (handleStateResponseLoop verifier peer justifications newHighest :
        HandlerM V B I J H E Z JE HE (Bool × Option (Error E Z JE HE)))
  | [], _ => Moves.pure _
  | justification :: justifications, newHighest => by
    rw [handleStateResponseLoop]
    refine (moves_handleJustification verifier justification (some peer)).attempt.bind
      fun r => ?_
    cases r with
    | ok highest => exact moves_handleStateResponseLoop peer justifications _
    | error e => exact Moves.pure _

theorem moves_handleHeader (header : H) (peer : I) (lastImported : Option BlockId) :
    Moves Advances (handleHeader verifier header peer lastImported :
      HandlerM V B I J H E Z JE HE (Option P × Except (Error E Z JE HE) Unit)) := by
  unfold handleHeader
  refine (moves_verifyHeader verifier header false).attempt.bind fun r => ?_
  cases r with
  | error e => exact Moves.pure _
  | ok verified =>
    refine (moves_updateHeader verified.header (some peer) false).attempt.bind fun r => ?_
    cases r with
    | error e => exact Moves.pure _
    | ok _ => exact Moves.get.bind fun _ => Moves.ite (Moves.pure _) (Moves.pure _)

/-- The loop of `handle_request_response`, by induction on the items. -/
theorem moves_handleRequestResponseLoop (peer : I) :
    ∀ (items : List (ResponseItem B J H)) (lastImported : Option BlockId) (newHighest : Bool)
      (proofs : List P),
      Moves Advances (handleRequestResponseLoop verifier peer items lastImported newHighest proofs :
        HandlerM V B I J H E Z JE HE (Bool × List P × Option (Error E Z JE HE)))
  | [], _, _, _ => Moves.pure _
  | .justification j :: items, lastImported, newHighest, proofs => by
    rw [handleRequestResponseLoop]
    refine (moves_handleJustification verifier j (some peer)).attempt.bind fun r => ?_
    cases r with
    | ok highest => exact moves_handleRequestResponseLoop peer items lastImported _ proofs
    | error e => exact Moves.pure _
  | .header header :: items, lastImported, newHighest, proofs => by
    rw [handleRequestResponseLoop]
    refine Moves.get.bind fun _ =>
      Moves.ite (moves_handleRequestResponseLoop peer items lastImported newHighest proofs) ?_
    refine (moves_handleHeader verifier header peer none).bind fun r => ?_
    obtain ⟨proof, outcome⟩ := r
    cases outcome with
    | error e => exact Moves.pure _
    | ok u => exact moves_handleRequestResponseLoop peer items lastImported newHighest _
  | .block b :: items, lastImported, newHighest, proofs => by
    rw [handleRequestResponseLoop]
    refine Moves.get.bind fun _ =>
      Moves.ite (moves_handleRequestResponseLoop peer items lastImported newHighest proofs) ?_
    refine (moves_handleHeader verifier (Block.header b) peer lastImported).bind fun r => ?_
    obtain ⟨proof, outcome⟩ := r
    dsimp only
    split
    case h_1 => exact Moves.pure _
    case h_2 => exact Moves.pure _
    case h_3 =>
      exact (moves_importBlock b false).bind fun _ =>
        moves_handleRequestResponseLoop peer items _ newHighest _

theorem moves_lastJustificationUnverified (session : SessionId) :
    Moves Advances (lastJustificationUnverified session : HandlerM V B I J H E Z JE HE J) := by
  unfold lastJustificationUnverified
  refine Moves.get.bind fun h => ?_
  split
  case h_1 => exact Moves.throw _
  case h_2 => exact Moves.pure _
  case h_3 => exact Moves.throw _

theorem moves_handleState (state : State J H) (peer : I) :
    Moves Advances (handleState verifier state peer :
      HandlerM V B I J H E Z JE HE (HandleStateAction J × Option P)) := by
  unfold handleState
  refine Moves.get.bind fun h => ?_
  dsimp only
  split
  case h_1 => exact Moves.throw _
  case h_2 =>
    refine Moves.ite ?_ ?_
    · -- a peer in a later session: its justification first, then its favourite block
      exact (moves_handleJustification verifier _ (some peer)).bind fun _ =>
        (moves_verifyHeader verifier _ false).bind fun verified =>
          (moves_updateHeader verified.header (some peer) false).bind fun _ => Moves.pure _
    · split
      case h_1 =>
        refine Moves.ite ?_ (Moves.pure _)
        exact (moves_verifyHeader verifier _ false).bind fun verified =>
          (moves_handleJustification verifier _ (some peer)).bind fun _ =>
            (moves_updateHeader verified.header (some peer) false).bind fun _ => Moves.pure _
      case h_2 => exact (moves_lastJustificationUnverified _).bind fun _ => Moves.pure _
      case h_3 =>
        exact (moves_lastJustificationUnverified _).bind fun _ =>
          (moves_lastJustificationUnverified _).bind fun _ => Moves.pure _

theorem moves_handleInternalRequest (header : H) :
    Moves Advances (handleInternalRequest verifier header :
      HandlerM V B I J H E Z JE HE (Bool × Option P)) := by
  unfold handleInternalRequest
  exact (moves_verifyHeader verifier header false).bind fun verified =>
    (moves_updateHeader verified.header none true).bind fun _ => Moves.pure _

theorem moves_handleOwnBlock (block : B) :
    Moves Advances (handleOwnBlock verifier block : HandlerM V B I J H E Z JE HE (Option P)) := by
  unfold handleOwnBlock
  exact (moves_verifyHeader verifier (Block.header block) true).bind fun _ =>
    (moves_importBlock block true).bind fun _ => Moves.pure _

/-- Every call advances finality, the database moving on under the handler too. -/
theorem moves_call (c : Call B I J H E) :
    Moves Advances (call verifier c : HandlerM V B I J H E Z JE HE Unit) := by
  cases c with
  | blockImported header => exact Moves.discard (moves_blockImported verifier header)
  | handleRequest request => exact Moves.discard (moves_handleRequest verifier request)
  | handleChainExtensionRequest state =>
    exact Moves.discard (moves_handleChainExtensionRequest verifier state)
  | handleJustificationFromUser justification =>
    exact Moves.discard (moves_handleJustification verifier justification none)
  | handleStateResponse justification maybeJustification peer =>
    exact Moves.discard (moves_handleStateResponseLoop verifier peer _ false)
  | handleRequestResponse responseItems peer =>
    exact Moves.discard (moves_handleRequestResponseLoop verifier peer responseItems none false [])
  | handleState state peer => exact Moves.discard (moves_handleState verifier state peer)
  | handleInternalRequest header => exact Moves.discard (moves_handleInternalRequest verifier header)
  | handleOwnBlock block => exact Moves.discard (moves_handleOwnBlock verifier block)
  | database chainStatus => exact Moves.modify fun _ => advances_of_ledger_eq rfl

/-- Over every sequence of calls from a handler with a reachable forest that has finalized
nothing yet, the forest stays reachable and the finalizer receives justifications of strictly
increasing blocks, above the root the handler started from and below every block the forest
still holds. -/
theorem syncHandler_finalizes_in_order {h : SyncHandler V B I J H E Z} (hf : h.forest.Reachable)
    (hnew : h.finalized = []) (calls : List (Call B I J H E)) :
    (run verifier h calls).forest.Reachable ∧
      (run verifier h calls).finalized.Pairwise (fun a b => numberOf a < numberOf b) ∧
      (∀ j ∈ (run verifier h calls).finalized, (Header.id h.forest.root).number < numberOf j) ∧
      ∀ j ∈ (run verifier h calls).finalized, ∀ k ∈ (run verifier h calls).forest.vertices,
        numberOf j < k.number := by
  have hadv : Advances h (run verifier h calls) :=
    advances_of_steps (EStateM.Moves.runAll (moves_call verifier) calls h)
  have hstart : Ordered (Header.id h.forest.root).number h.toHandler.ledger := by
    show Ordered _ (h.forest, h.finalized)
    rw [hnew]
    exact ordered_start hf
  have ho := hstart.advances hadv
  refine ⟨ho.reachable, ho.increasing, ho.above, fun j hj k hk => ?_⟩
  exact Nat.lt_of_le_of_lt (ho.belowRoot j hj) (ho.reachable.bounded.above k hk)

end Moves

/-! ## What a peer behind us is sent -/

section Response

variable (verifier : Verifier V J H P JE HE)

theorem maybeExtend_ne_response (newInfo : Bool) (j : J) (oj : Option J) :
    HandleStateAction.maybeExtend newInfo ≠ .response j oj := by
  cases newInfo <;> nofun

/-- The justification of the last block of a session, when there is one, comes from the
database, and leaves the handler as it was. -/
theorem lastJustificationUnverified_ok {session : SessionId} {h h' : SyncHandler V B I J H E Z}
    {j : J} (hr : (lastJustificationUnverified session : HandlerM V B I J H E Z JE HE J).run h =
      .ok j h') :
    h' = h ∧ h.chainStatus.finalizedAt (h.sessionInfo.lastBlockOfSession session) =
      .ok (.finalizedWithJustification j) := by
  simp only [lastJustificationUnverified, EStateM.run_bind, EStateM.run_get] at hr
  split at hr
  case h_1 => cases hr
  case h_2 heq =>
    cases hr
    exact ⟨rfl, heq⟩
  case h_3 => cases hr

/-- What lets a peer whose top justification is at block `remote` catch up with our top
finalized `top`, sent as `justification` and `otherJustification`: in our session, our top one;
sessions behind, the justification of the last block of its session, at or above its top, and
one of the next session above it and not above our top. -/
def CatchesUp (info : SessionBoundaryInfo) (remote : Nat) (top justification : J)
    (otherJustification : Option J) : Prop :=
  ((info.sessionIdFromBlockNum remote).n = (info.sessionIdFromBlockNum (numberOf top)).n ∧
      remote < numberOf top ∧ justification = top ∧ otherJustification = none) ∨
    ((info.sessionIdFromBlockNum remote).n < (info.sessionIdFromBlockNum (numberOf top)).n ∧
      numberOf justification = info.lastBlockOfSession (info.sessionIdFromBlockNum remote) ∧
      remote ≤ numberOf justification ∧
      ∃ next, otherJustification = some next ∧
        (info.sessionIdFromBlockNum (numberOf next)).n =
          (info.sessionIdFromBlockNum remote).n + 1 ∧
        numberOf justification < numberOf next ∧ numberOf next ≤ numberOf top)

/-- Every response to a state broadcast lets the peer catch up, when the database holds the
justification of every block it says is finalized with one; answering leaves the handler as it
was. -/
theorem handleState_response_catches_up {h h' : SyncHandler V B I J H E Z} {top : J}
    (htop : h.chainStatus.topFinalized = .ok top)
    (hjust : ∀ n j, h.chainStatus.finalizedAt n = .ok (.finalizedWithJustification j) →
      numberOf j = n)
    {state : State J H} {peer : I} {j : J} {oj : Option J} {proof : Option P}
    (hr : (handleState verifier state peer : HandlerM V B I J H E Z JE HE _).run h =
      .ok (.response j oj, proof) h') :
    h' = h ∧ proof = none ∧ CatchesUp h.sessionInfo (numberOf state.topJustification) top j oj := by
  simp only [handleState, EStateM.run_bind, EStateM.run_get, htop] at hr
  split at hr
  case isTrue hlt =>
    -- a peer in a later session makes us extend our chain, or nothing
    refine absurd rfl ((?_ : Returns (fun r : HandleStateAction J × Option P =>
      r.1 ≠ .response j oj) _) h _ h' hr)
    exact Returns.bind fun _ => Returns.bind fun _ => Returns.bind fun _ =>
      Returns.pure (maybeExtend_ne_response _ j oj)
  case isFalse hge =>
    split at hr
    case h_1 hsame =>
      split at hr
      case isTrue hle =>
        refine absurd rfl ((?_ : Returns (fun r : HandleStateAction J × Option P =>
          r.1 ≠ .response j oj) _) h _ h' hr)
        exact Returns.bind fun _ => Returns.bind fun _ => Returns.bind fun _ =>
          Returns.pure (maybeExtend_ne_response _ j oj)
      case isFalse hlt =>
        -- the same session, and the peer lower: our top justification
        cases hr
        exact ⟨rfl, rfl, .inl ⟨by omega, by omega, rfl, rfl⟩⟩
    case h_2 hone =>
      -- a session behind: the last justification of its session, and our top one
      have hlt : (h.sessionInfo.sessionIdFromBlockNum (numberOf state.topJustification)).n <
          (h.sessionInfo.sessionIdFromBlockNum (numberOf top)).n := by omega
      rw [EStateM.run_bind] at hr
      split at hr
      case h_1 last h₁ hlast =>
        obtain ⟨rfl, hfin⟩ := lastJustificationUnverified_ok hlast
        cases hr
        have hj := hjust _ _ hfin
        refine ⟨rfl, rfl, .inr ⟨hlt, hj, ?_, top, rfl, by omega, ?_, le_rfl⟩⟩
        · rw [hj]
          exact SessionBoundaryInfo.le_lastBlockOfSession
        · rw [hj]
          exact SessionBoundaryInfo.lastBlockOfSession_lt hlt
      case h_2 => cases hr
    case h_3 k hk =>
      -- further behind: the last justifications of its session and of the next one
      have hlt : (h.sessionInfo.sessionIdFromBlockNum (numberOf state.topJustification)).n + 1 <
          (h.sessionInfo.sessionIdFromBlockNum (numberOf top)).n := by omega
      rw [EStateM.run_bind] at hr
      split at hr
      case h_1 last h₁ hlast =>
        rw [EStateM.run_bind] at hr
        split at hr
        case h_1 next h₂ hnext =>
          obtain ⟨hh₁, hfin⟩ := lastJustificationUnverified_ok hlast
          rw [hh₁] at hnext
          obtain ⟨hh₂, hfin'⟩ := lastJustificationUnverified_ok hnext
          have hj := hjust _ _ hfin
          have hn := hjust _ _ hfin'
          have hsn : (h.sessionInfo.sessionIdFromBlockNum (numberOf next)).n =
              (h.sessionInfo.sessionIdFromBlockNum (numberOf state.topJustification)).n + 1 := by
            rw [hn, SessionBoundaryInfo.sessionIdFromBlockNum_lastBlockOfSession]
          cases hr
          refine ⟨hh₂, rfl, .inr ⟨by omega, hj, ?_, next, rfl, hsn, ?_, ?_⟩⟩
          · rw [hj]
            exact SessionBoundaryInfo.le_lastBlockOfSession
          · rw [hj]
            exact SessionBoundaryInfo.lastBlockOfSession_lt (by omega)
          · rw [hn]
            exact (SessionBoundaryInfo.lastBlockOfSession_lt hlt).le
        case h_2 => cases hr
      case h_2 => cases hr

end Response

/-- A verifier that accepts everything and authors nothing. -/
def trustingVerifier :
    Verifier Unit (SubstrateJustification ChainHeader Unit) ChainHeader Unit Unit Unit where
  verifyJustification v j := (.ok j, v)
  verifyHeader v header _ := (.ok ⟨header, none⟩, v)
  ownBlock _ _ := false

/-- The handler of `Handler.sampleHandler` with an empty forest over the genesis. -/
def sampleSyncHandler : SyncHandler Unit (SubstrateBlock ChainHeader) Nat
    (SubstrateJustification ChainHeader Unit) ChainHeader Unit Unit :=
  { Handler.sampleHandler with
    forest := Forest.empty ⟨0⟩
    verifier := ()
    imported := []
    behind := [] }

/-- A database in which every block up to `top` is finalized with a justification of its own. -/
def justifiedLine (top : Nat) :
    ChainStatus (SubstrateBlock ChainHeader) (SubstrateJustification ChainHeader Unit)
      ChainHeader Unit :=
  { ChainStatus.line top with
    finalizedAt := fun n =>
      .ok (if n ≤ top then .finalizedWithJustification ⟨⟨n⟩, .genesis⟩ else .notFinalized)
    topFinalized := .ok ⟨⟨top⟩, .genesis⟩ }

/-- Finalized up to block 9, in the third session of 4 blocks. -/
def sessionsAheadHandler : SyncHandler Unit (SubstrateBlock ChainHeader) Nat
    (SubstrateJustification ChainHeader Unit) ChainHeader Unit Unit :=
  { sampleSyncHandler with chainStatus := justifiedLine 9 }

/-- A peer with block 1 finalized, two sessions behind, is sent the justifications of blocks 3
and 7. -/
theorem handleState_response_catches_up_sample :
    sessionsAheadHandler.chainStatus.topFinalized = .ok ⟨⟨9⟩, .genesis⟩ ∧
      (∀ n j, sessionsAheadHandler.chainStatus.finalizedAt n =
        .ok (.finalizedWithJustification j) → numberOf j = n) ∧
      (handleState trustingVerifier ⟨⟨⟨1⟩, .genesis⟩, ⟨1⟩⟩ 0 : HandlerM Unit
        (SubstrateBlock ChainHeader) Nat (SubstrateJustification ChainHeader Unit) ChainHeader Unit
        Unit Unit Unit _).run sessionsAheadHandler =
        .ok (.response ⟨⟨3⟩, .genesis⟩ (some ⟨⟨7⟩, .genesis⟩), none) sessionsAheadHandler ∧
      CatchesUp sessionsAheadHandler.sessionInfo 1
        (⟨⟨9⟩, .genesis⟩ : SubstrateJustification ChainHeader Unit) ⟨⟨3⟩, .genesis⟩
        (some ⟨⟨7⟩, .genesis⟩) := by
  have htop : sessionsAheadHandler.chainStatus.topFinalized = .ok ⟨⟨9⟩, .genesis⟩ := rfl
  have hjust : ∀ n j, sessionsAheadHandler.chainStatus.finalizedAt n =
      .ok (.finalizedWithJustification j) → numberOf j = n := by
    intro n j hn
    simp only [sessionsAheadHandler, justifiedLine, Except.ok.injEq] at hn
    split_ifs at hn
    cases hn
    rfl
  have hr : (handleState trustingVerifier ⟨⟨⟨1⟩, .genesis⟩, ⟨1⟩⟩ 0 : HandlerM Unit
      (SubstrateBlock ChainHeader) Nat (SubstrateJustification ChainHeader Unit) ChainHeader Unit
      Unit Unit Unit _).run sessionsAheadHandler =
      .ok (.response ⟨⟨3⟩, .genesis⟩ (some ⟨⟨7⟩, .genesis⟩), none) sessionsAheadHandler := rfl
  exact ⟨htop, hjust, hr, (handleState_response_catches_up trustingVerifier htop hjust hr).2.2⟩

/-- Block 1 imported, then its justification from the user. -/
def sampleCalls : List (Call (SubstrateBlock ChainHeader) Nat
    (SubstrateJustification ChainHeader Unit) ChainHeader Unit) :=
  [.blockImported ⟨1⟩, .handleJustificationFromUser ⟨⟨1⟩, .genesis⟩]

theorem syncHandler_finalizes_in_order_sample :
    sampleSyncHandler.forest.Reachable ∧ sampleSyncHandler.finalized = [] ∧
      (run trustingVerifier sampleSyncHandler sampleCalls).finalized.Pairwise
        (fun a b => numberOf a < numberOf b) :=
  ⟨.empty _, rfl,
    (syncHandler_finalizes_in_order trustingVerifier (.empty _) rfl sampleCalls).2.1⟩

/-- The justification of block 1 reaches the finalizer. -/
example : ((run trustingVerifier sampleSyncHandler sampleCalls).finalized.map numberOf) = [1] := by
  decide

end SyncHandler

end Selendra.Sync
