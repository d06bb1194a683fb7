import Selendra.Sync.Data
import Selendra.Session.Basic
import Selendra.Control.Loop

/-! # Answering a request

`RequestHandler` of `sync/handler/request_handler.rs`. Asked for a target block, it walks
from the target, or from the justified block `adjust_head` picks instead, down the parent
links to the requester's top justified block. The walk is cut into chunks at every justified
block it meets. A chunk holds the justification of its top block, then the headers and the
blocks of the walk up to the next justified block; its blocks are reversed, and so is the
list of chunks, so that the blocks of the response go up the chain. Which items a chunk gets
is decided by a mode that the branch knowledge of the request switches: `LowestId` starts
sending headers too, `TopImported` stops sending blocks.

The two `while` loops run on fuel (`Except.repeatUntil`); the number of the head the walk
starts from is enough for both, as every round goes one block down.

At the end, the check that the receiving side (`Handler::handle_header` within
`Handler::handle_request_response`) makes of each block of a response. -/

namespace Selendra.Sync.Handler

variable {B J H E : Type} [Header H] [Justification J H] [Block B H]

inductive RequestHandlerError (E : Type) where
  | missingBlock (id : BlockId)
  | missingParent (id : BlockId)
  | rootMismatch
  | lastBlockOfSessionNotJustified
  | chainStatusError (e : E)

inductive HeadOfChunk (J H : Type) where
  | justification (j : J)
  | header (h : H)

namespace HeadOfChunk

def id : HeadOfChunk J H → BlockId
  | .justification j => Header.id (Justification.header j)
  | .header h => Header.id h

def parentId : HeadOfChunk J H → Option BlockId
  | .justification j => Header.parentId (Justification.header j)
  | .header h => Header.parentId h

def isJustification : HeadOfChunk J H → Bool
  | .justification _ => true
  | .header _ => false

/-- The head a block status gives: its justification or its header, none if unknown (the
match of `next_head` and of `action`). -/
def ofStatus : BlockStatus J H → Option (HeadOfChunk J H)
  | .justified j => some (.justification j)
  | .present h => some (.header h)
  | .unknown => none

end HeadOfChunk

inductive State where
  | everythingButHeader
  | everything
  | onlyJustification
deriving DecidableEq, Repr

structure PreChunk (B J H : Type) where
  just : Option J
  blocks : List B
  headers : List H

namespace PreChunk

def empty : PreChunk B J H := ⟨none, [], []⟩

def fromJust (justification : J) : PreChunk B J H := ⟨some justification, [], []⟩

def new : HeadOfChunk J H → PreChunk B J H
  | .justification j => fromJust j
  | .header _ => empty

def addBlock (c : PreChunk B J H) (b : B) : PreChunk B J H :=
  { c with blocks := c.blocks ++ [b] }

def addBlockAndHeader (c : PreChunk B J H) (b : B) : PreChunk B J H :=
  { c with headers := c.headers ++ [Block.header b], blocks := c.blocks ++ [b] }

def singleBlock (block : B) : PreChunk B J H := (empty : PreChunk B J H).addBlock block

/-- The justification, the headers in the order they were added, and the blocks reversed. -/
def intoChunk (c : PreChunk B J H) : List (ResponseItem B J H) :=
  (match c.just with
    | some j => [.justification j]
    | none => []) ++
  c.headers.map .header ++ c.blocks.reverse.map .block

end PreChunk

structure StepResult (B J H : Type) where
  preChunk : PreChunk B J H
  state : State
  head : HeadOfChunk J H

namespace StepResult

def new (head : HeadOfChunk J H) (state : State) : StepResult B J H :=
  ⟨PreChunk.new head, state, head⟩

def currentId (r : StepResult B J H) : BlockId := r.head.id

def startSendingHeaders (r : StepResult B J H) : StepResult B J H :=
  { r with state := .everything }

def stopSendingBlocks (r : StepResult B J H) : StepResult B J H :=
  { r with state := .onlyJustification }

def finish (r : StepResult B J H) : List (ResponseItem B J H) × State × HeadOfChunk J H :=
  (r.preChunk.intoChunk, r.state, r.head)

variable (chainStatus : ChainStatus B J H E)

def addBlock (r : StepResult B J H) (id : BlockId) :
    Except (RequestHandlerError E) (StepResult B J H) :=
  match chainStatus.block id with
  | .error e => .error (.chainStatusError e)
  | .ok none => .error (.missingBlock id)
  | .ok (some block) => .ok { r with preChunk := r.preChunk.addBlock block }

def addBlockAndHeader (r : StepResult B J H) (id : BlockId) :
    Except (RequestHandlerError E) (StepResult B J H) :=
  match chainStatus.block id with
  | .error e => .error (.chainStatusError e)
  | .ok none => .error (.missingBlock id)
  | .ok (some block) => .ok { r with preChunk := r.preChunk.addBlockAndHeader block }

def nextHead (r : StepResult B J H) : Except (RequestHandlerError E) (HeadOfChunk J H) :=
  match r.head.parentId with
  | none => .error (.missingParent r.head.id)
  | some parentId =>
    match chainStatus.statusOf parentId with
    | .error e => .error (.chainStatusError e)
    | .ok status =>
      match HeadOfChunk.ofStatus status with
      | some head => .ok head
      | none => .error (.missingBlock parentId)

/-- Adds to the chunk what the state asks for, then moves to the parent; the answer is
whether the new head is justified, which ends the chunk. -/
def update (r : StepResult B J H) : Except (RequestHandlerError E) (Bool × StepResult B J H) :=
  (match r.state with
    | .everythingButHeader => r.addBlock chainStatus r.head.id
    | .everything =>
      if r.head.isJustification then r.addBlock chainStatus r.head.id
      else r.addBlockAndHeader chainStatus r.head.id
    | .onlyJustification => pure r) >>= fun r =>
  r.nextHead chainStatus >>= fun head =>
  pure (head.isJustification, { r with head := head })

end StepResult

structure RequestHandler (B J H E : Type) where
  chainStatus : ChainStatus B J H E
  sessionInfo : SessionBoundaryInfo

inductive Action (B J H : Type) where
  | requestBlock (h : H)
  | response (items : List (ResponseItem B J H))
  | noop

def Action.new (responseItems : List (ResponseItem B J H)) : Action B J H :=
  if responseItems.isEmpty then .noop else .response responseItems

/-- The local variables of the loop of `response_items`. -/
structure ResponseLoop (B J H : Type) where
  state : State
  head : HeadOfChunk J H
  responseItems : List (List (ResponseItem B J H))

namespace RequestHandler

variable (rh : RequestHandler B J H E)

/-- The last block of the session after the one of `id`: no request goes beyond it. -/
def upperLimit (id : BlockId) : Nat :=
  let session := rh.sessionInfo.sessionIdFromBlockNum id.number
  rh.sessionInfo.lastBlockOfSession ⟨session.n + 1⟩

def isResultComplete (result : StepResult B J H) (branchKnowledge : BranchKnowledge)
    (toId : BlockId) : Except (RequestHandlerError E) (Bool × StepResult B J H) :=
  if result.currentId = toId then .ok (true, result)
  else if result.currentId.number ≤ toId.number then .error .rootMismatch
  else
    match branchKnowledge with
    | .lowestId id =>
      if id = result.currentId then result.startSendingHeaders.update rh.chainStatus
      else result.update rh.chainStatus
    | .topImported id =>
      if id = result.currentId then result.stopSendingBlocks.update rh.chainStatus
      else result.update rh.chainStatus

/-- One chunk, from `fromHead` down to the next justified block or to `to`. -/
def step (fuel : Nat) (state : State) (fromHead : HeadOfChunk J H) (toId : BlockId)
    (branchKnowledge : BranchKnowledge) :
    Except (RequestHandlerError E) (Option (StepResult B J H)) :=
  if fromHead.id = toId then .ok none
  else
    (Except.repeatUntil (rh.isResultComplete · branchKnowledge toId) fuel
      (StepResult.new fromHead state)).map some

/-- One round of the `while let` loop of `response_items`. -/
def responseRound (fuel : Nat) (branchKnowledge : BranchKnowledge) (toId : BlockId)
    (s : ResponseLoop B J H) : Except (RequestHandlerError E) (Bool × ResponseLoop B J H) :=
  match rh.step fuel s.state s.head toId branchKnowledge with
  | .error e => .error e
  | .ok none => .ok (true, s)
  | .ok (some result) =>
    let (chunk, newState, newHead) := result.finish
    .ok (false, ⟨newState, newHead, s.responseItems ++ [chunk]⟩)

def responseItems (fuel : Nat) (head : HeadOfChunk J H) (branchKnowledge : BranchKnowledge)
    (toId : BlockId) : Except (RequestHandlerError E) (List (ResponseItem B J H)) :=
  (Except.repeatUntil (rh.responseRound fuel branchKnowledge toId) fuel
    ⟨.everythingButHeader, head, []⟩).map fun s => s.responseItems.reverse.flatten

/-- A target at or below our top justification is answered from a justified block: our
top justification, or the last justified block of the session if the requester may not go
further. -/
def adjustHead (head : HeadOfChunk J H) (ourTopJustification : J) (upperLimit : Nat) :
    Except (RequestHandlerError E) (HeadOfChunk J H) :=
  let target := head.id
  let ourTopJustificationNumber := (Header.id (Justification.header ourTopJustification)).number
  if target.number > ourTopJustificationNumber then .ok head
  else if upperLimit > ourTopJustificationNumber then .ok (.justification ourTopJustification)
  else
    match rh.chainStatus.finalizedAt upperLimit with
    | .error e => .error (.chainStatusError e)
    | .ok (.finalizedWithJustification j) => .ok (.justification j)
    | .ok _ => .error .lastBlockOfSessionNotJustified

def action (request : Request J H) : Except (RequestHandlerError E) (Action B J H) :=
  match rh.chainStatus.topFinalized with
  | .error e => .error (.chainStatusError e)
  | .ok ourTopJustification =>
    let topJustification := request.state.topJustification
    let target := request.target
    let upperLimit := rh.upperLimit (Header.id (Justification.header topJustification))
    -- request too far into future
    if (Header.id target).number > upperLimit then .ok .noop
    else
      match rh.chainStatus.statusOf (Header.id target) with
      | .error e => .error (.chainStatusError e)
      | .ok status =>
        match HeadOfChunk.ofStatus status with
        | none => .ok (.requestBlock target)
        | some head =>
          match rh.adjustHead head ourTopJustification upperLimit with
          | .error e => .error e
          | .ok head =>
            match rh.responseItems (head.id.number + 1) head request.branchKnowledge
                (Header.id (Justification.header topJustification)) with
            | .error e => .error e
            | .ok responseItems => .ok (Action.new responseItems)

end RequestHandler

/-- A pseudo-response from a single block, assuming the recipient has its parent. -/
def blockToResponse (block : B) : List (ResponseItem B J H) :=
  (PreChunk.singleBlock block : PreChunk B J H).intoChunk

/-! ## The receiving side -/

/-- The exemption of `handle_header` for a header the forest does not find importable: its
parent is the block imported just before. -/
def followsLastImported (lastImported : Option BlockId) (h : H) : Bool :=
  (lastImported.bind fun id => (Header.parentId h).map fun pId => id == pId).getD false

/-- That exemption on each block of a response, in order, with `last_imported` threaded
through as `handle_request_response` does when every item is handled and none skipped. -/
def lastImportedChecks : Option BlockId → List (ResponseItem B J H) → List Bool
  | _, [] => []
  | lastImported, .block b :: items =>
    followsLastImported lastImported (Block.header b) ::
      lastImportedChecks (some (Header.id (Block.header b))) items
  | lastImported, _ :: items => lastImportedChecks lastImported items

end Selendra.Sync.Handler
