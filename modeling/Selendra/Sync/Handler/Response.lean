import Selendra.Sync.Handler.RequestHandler
import Mathlib

/-! # The shape of a response

What `RequestHandler::action` sends, read the way its receiver reads it. The Block items go
up one chain, from a child of the requester's top justified block (or of its top imported
block, below which no blocks are sent) to the head of the walk; a Justification item comes
before the Block item of its block, the Justification items go up in number, and a Header
item comes before the Block item of its block (`ChainedResponse`).

The proof follows the two loops. One round of the inner loop adds at most one block and
moves the head one block down (`update_ok`, `isResultComplete_ok`); what a chunk holds
while it is being filled is `ChunkInv`. The outer loop puts each new chunk in front of
those sent so far, which lie above its head (`Sent`). With the laws of the headers and a
consistent chain status, both loops end within the fuel the head's number gives. -/

namespace Selendra.Sync.Handler

set_option linter.unusedSectionVars false

variable {B J H E : Type} [Header H] [Justification J H] [Block B H]

/-! ## Views of a response -/

/-- The header of a Block item. -/
def blockHeaderOf : ResponseItem B J H → Option H
  | .justification _ => none
  | .header _ => none
  | .block b => some (Block.header b)

/-- The block of a Justification item. -/
def justificationIdOf : ResponseItem B J H → Option BlockId
  | .justification j => some (Header.id (Justification.header j))
  | .header _ => none
  | .block _ => none

/-- The headers of the Block items, in order. -/
def blockHeaders (items : List (ResponseItem B J H)) : List H := items.filterMap blockHeaderOf

/-- The blocks of the Justification items, in order. -/
def justificationIds (items : List (ResponseItem B J H)) : List BlockId :=
  items.filterMap justificationIdOf

/-- Every Justification item comes before the Block item of its block. -/
def JustificationsFirst (items : List (ResponseItem B J H)) : Prop :=
  ∀ j b, .justification j ∈ items → .block b ∈ items →
    Header.id (Justification.header j) = Header.id (Block.header b) →
    [.justification j, .block b].Sublist items

/-- Every Header item comes before a Block item of its block. -/
def HeadersFirst (items : List (ResponseItem B J H)) : Prop :=
  ∀ h, .header h ∈ items → ∃ b, Header.id (Block.header b) = Header.id h ∧
    [.header h, .block b].Sublist items

/-- The blocks go up one chain, each the child of the one before. -/
def Ascending (headers : List H) : Prop :=
  headers.IsChain fun a b => Header.parentId b = some (Header.id a)

/-- What a response from `head` down to `toId` looks like to its receiver. -/
structure ChainedResponse (head toId : BlockId) (branchKnowledge : BranchKnowledge)
    (items : List (ResponseItem B J H)) : Prop where
  chain : Ascending (blockHeaders items)
  last : ∀ h ∈ (blockHeaders items).getLast?, Header.id h = head
  first : ∀ h ∈ (blockHeaders items).head?, Header.parentId h = some toId ∨
    ∃ y, branchKnowledge = .topImported y ∧ Header.parentId h = some y
  justificationsFirst : JustificationsFirst items
  justificationsIncreasing : (justificationIds items).Pairwise fun a b => a.number < b.number
  headersFirst : HeadersFirst items

section Views

variable {items items' : List (ResponseItem B J H)}

@[simp] theorem blockHeaders_append :
    blockHeaders (items ++ items') = blockHeaders items ++ blockHeaders items' :=
  List.filterMap_append

@[simp] theorem justificationIds_append :
    justificationIds (items ++ items') = justificationIds items ++ justificationIds items' :=
  List.filterMap_append

theorem mem_blockHeaders {b : B} (h : .block b ∈ items) : Block.header b ∈ blockHeaders items :=
  List.mem_filterMap.mpr ⟨_, h, rfl⟩

theorem HeadersFirst.append (h₁ : HeadersFirst items) (h₂ : HeadersFirst items') :
    HeadersFirst (items ++ items') := by
  unfold HeadersFirst
  intro h hh
  rcases List.mem_append.mp hh with hh | hh
  · obtain ⟨b, hb, hs⟩ := h₁ h hh
    exact ⟨b, hb, hs.trans (List.sublist_append_left _ _)⟩
  · obtain ⟨b, hb, hs⟩ := h₂ h hh
    exact ⟨b, hb, hs.trans (List.sublist_append_right _ _)⟩

/-- Two parts in which a Justification item and a Block item of one block are never apart
keep the Justification items first when put together. -/
theorem JustificationsFirst.append (h₁ : JustificationsFirst items)
    (h₂ : JustificationsFirst items')
    (hsep : ∀ j b, (.justification j ∈ items ∧ .block b ∈ items' ∨
      .justification j ∈ items' ∧ .block b ∈ items) →
      Header.id (Justification.header j) ≠ Header.id (Block.header b)) :
    JustificationsFirst (items ++ items') := by
  unfold JustificationsFirst
  intro j b hj hb hid
  rcases List.mem_append.mp hj with hj | hj <;> rcases List.mem_append.mp hb with hb | hb
  · exact (h₁ j b hj hb hid).trans (List.sublist_append_left _ _)
  · exact absurd hid (hsep j b (Or.inl ⟨hj, hb⟩))
  · exact absurd hid (hsep j b (Or.inr ⟨hj, hb⟩))
  · exact (h₂ j b hj hb hid).trans (List.sublist_append_right _ _)

end Views

/-! ## A chunk -/

theorem pair_sublist {α : Type} {x y : α} {l₁ l₂ : List α} (hx : x ∈ l₁) (hy : y ∈ l₂) :
    [x, y].Sublist (l₁ ++ l₂) :=
  (List.singleton_sublist.mpr hx).append (List.singleton_sublist.mpr hy)

section Chunk

variable (c : PreChunk B J H)

theorem intoChunk_eq : c.intoChunk =
    c.just.toList.map .justification ++ c.headers.map .header ++ c.blocks.reverse.map .block := by
  unfold PreChunk.intoChunk
  cases c.just <;> rfl

@[simp] theorem blockHeaders_intoChunk :
    blockHeaders c.intoChunk = (c.blocks.map Block.header).reverse := by
  rw [intoChunk_eq]
  simp [blockHeaders, List.filterMap_map, Function.comp_def, blockHeaderOf, List.map_reverse]

@[simp] theorem justificationIds_intoChunk :
    justificationIds c.intoChunk = c.just.toList.map fun j => Header.id (Justification.header j) := by
  rw [intoChunk_eq]
  simp [justificationIds, List.filterMap_map, Function.comp_def, justificationIdOf]

theorem mem_intoChunk_block {b : B} : .block b ∈ c.intoChunk ↔ b ∈ c.blocks := by
  rw [intoChunk_eq]
  simp

theorem mem_intoChunk_header {h : H} : .header h ∈ c.intoChunk ↔ h ∈ c.headers := by
  rw [intoChunk_eq]
  simp

theorem mem_intoChunk_justification {j : J} :
    .justification j ∈ c.intoChunk ↔ c.just = some j := by
  rw [intoChunk_eq]
  simp

/-- The one Justification item of a chunk comes first. -/
theorem justificationsFirst_intoChunk : JustificationsFirst c.intoChunk := by
  unfold JustificationsFirst
  intro j b hj hb _
  rw [intoChunk_eq]
  refine pair_sublist (List.mem_append_left _ ?_) ?_
  · simpa using (mem_intoChunk_justification c).mp hj
  · simpa using (mem_intoChunk_block c).mp hb

/-- The headers of a chunk come before its blocks. -/
theorem headersFirst_intoChunk
    (hc : ∀ h ∈ c.headers, ∃ b ∈ c.blocks, Header.id (Block.header b) = Header.id h) :
    HeadersFirst c.intoChunk := by
  unfold HeadersFirst
  intro h hh
  have hh := (mem_intoChunk_header c).mp hh
  obtain ⟨b, hb, hid⟩ := hc h hh
  refine ⟨b, hid, ?_⟩
  rw [intoChunk_eq]
  refine pair_sublist (List.mem_append_right _ ?_) ?_
  · simpa using hh
  · simpa using hb

end Chunk

/-! ## One round of the walk -/

section Round

variable {cs : ChainStatus B J H E}

theorem HeadOfChunk.exists_header (x : HeadOfChunk J H) :
    ∃ h : H, x.id = Header.id h ∧ x.parentId = Header.parentId h := by
  cases x with
  | justification j => exact ⟨_, rfl, rfl⟩
  | header h => exact ⟨h, rfl, rfl⟩

/-- The parent of a head is one block lower. -/
theorem HeadOfChunk.parent_number (laws : HeaderLaws H) {x : HeadOfChunk J H} {p : BlockId}
    (hp : x.parentId = some p) : p.number + 1 = x.id.number := by
  obtain ⟨h, hid, hpar⟩ := x.exists_header
  rw [hid]
  exact laws.parent_number h p (hpar ▸ hp)

/-- Every header of the head's block names the head's parent. -/
theorem HeadOfChunk.parentId_of_id (laws : HeaderLaws H) {x : HeadOfChunk J H} {h : H}
    (hh : Header.id h = x.id) : Header.parentId h = x.parentId := by
  obtain ⟨h', hid, hpar⟩ := x.exists_header
  rw [hpar]
  exact laws.parent_determined h h' (hh.trans hid)

theorem HeadOfChunk.id_ofStatus (hcs : cs.Consistent) {p : BlockId} {status : BlockStatus J H}
    {head : HeadOfChunk J H} (hs : cs.statusOf p = .ok status)
    (hh : HeadOfChunk.ofStatus status = some head) : head.id = p := by
  cases status with
  | justified j =>
    cases hh
    exact hcs.justified p j hs
  | present h =>
    cases hh
    exact hcs.present p h hs
  | unknown => cases hh

theorem PreChunk.blocks_new (x : HeadOfChunk J H) : (PreChunk.new x : PreChunk B J H).blocks = [] := by
  cases x <;> rfl

theorem PreChunk.headers_new (x : HeadOfChunk J H) :
    (PreChunk.new x : PreChunk B J H).headers = [] := by
  cases x <;> rfl

/-- A new chunk holds the justification of its head, if any. -/
theorem PreChunk.id_just_new {x : HeadOfChunk J H} {j : J}
    (h : (PreChunk.new x : PreChunk B J H).just = some j) : Header.id (Justification.header j) = x.id := by
  cases x with
  | justification j' =>
    cases h
    rfl
  | header _ => cases h

theorem nextHead_ok (hcs : cs.Consistent) {r : StepResult B J H} {head : HeadOfChunk J H}
    (h : r.nextHead cs = .ok head) : r.head.parentId = some head.id := by
  unfold StepResult.nextHead at h
  cases hp : r.head.parentId with
  | none => simp [hp] at h
  | some p =>
    simp only [hp] at h
    cases hs : cs.statusOf p with
    | error e => simp [hs] at h
    | ok status =>
      simp only [hs] at h
      cases ho : HeadOfChunk.ofStatus status with
      | none => simp [ho] at h
      | some head' =>
        simp only [ho, Except.ok.injEq] at h
        rw [← h, HeadOfChunk.id_ofStatus hcs hs ho]

theorem addBlock_ok {r r₁ : StepResult B J H} {id : BlockId} (h : r.addBlock cs id = .ok r₁) :
    ∃ blk, cs.block id = .ok (some blk) ∧ r₁ = { r with preChunk := r.preChunk.addBlock blk } := by
  unfold StepResult.addBlock at h
  cases hb : cs.block id with
  | error e => simp [hb] at h
  | ok ob =>
    cases ob with
    | none => simp [hb] at h
    | some blk =>
      simp only [hb, Except.ok.injEq] at h
      exact ⟨blk, rfl, h.symm⟩

theorem addBlockAndHeader_ok {r r₁ : StepResult B J H} {id : BlockId}
    (h : r.addBlockAndHeader cs id = .ok r₁) : ∃ blk, cs.block id = .ok (some blk) ∧
      r₁ = { r with preChunk := r.preChunk.addBlockAndHeader blk } := by
  unfold StepResult.addBlockAndHeader at h
  cases hb : cs.block id with
  | error e => simp [hb] at h
  | ok ob =>
    cases ob with
    | none => simp [hb] at h
    | some blk =>
      simp only [hb, Except.ok.injEq] at h
      exact ⟨blk, rfl, h.symm⟩

/-- `update` keeps the state and the justification, moves to the parent, and adds the
head's block, with its header or not, unless only justifications are sent. -/
theorem update_ok (hcs : cs.Consistent) {r r' : StepResult B J H} {b : Bool}
    (h : r.update cs = .ok (b, r')) :
    r'.state = r.state ∧ r'.preChunk.just = r.preChunk.just ∧
      r.head.parentId = some r'.head.id ∧
      ((r.state = .onlyJustification ∧ r'.preChunk = r.preChunk) ∨
        (r.state ≠ .onlyJustification ∧ ∃ blk, cs.block r.head.id = .ok (some blk) ∧
          r'.preChunk.blocks = r.preChunk.blocks ++ [blk] ∧
          (r'.preChunk.headers = r.preChunk.headers ∨
            r'.preChunk.headers = r.preChunk.headers ++ [Block.header blk]))) := by
  unfold StepResult.update at h
  obtain ⟨r₁, hadd, h⟩ := Except.bind_eq_ok.mp h
  obtain ⟨head, hnext, h⟩ := Except.bind_eq_ok.mp h
  cases h
  have hpar := nextHead_ok hcs hnext
  -- one case per arm of the match on the state
  cases hs : r.state with
  | everythingButHeader =>
    simp only [hs] at hadd
    obtain ⟨blk, hblk, rfl⟩ := addBlock_ok hadd
    exact ⟨hs, rfl, hpar, Or.inr ⟨by simp, blk, hblk, rfl, Or.inl rfl⟩⟩
  | everything =>
    simp only [hs] at hadd
    split at hadd
    · obtain ⟨blk, hblk, rfl⟩ := addBlock_ok hadd
      exact ⟨hs, rfl, hpar, Or.inr ⟨by simp, blk, hblk, rfl, Or.inl rfl⟩⟩
    · obtain ⟨blk, hblk, rfl⟩ := addBlockAndHeader_ok hadd
      exact ⟨hs, rfl, hpar, Or.inr ⟨by simp, blk, hblk, rfl, Or.inr rfl⟩⟩
  | onlyJustification =>
    simp only [hs] at hadd
    cases hadd
    exact ⟨hs, rfl, hpar, Or.inl ⟨rfl, rfl⟩⟩

variable (rh : RequestHandler B J H E)

/-- A round of the inner loop either finds the walk at `toId`, or, above it, switches the
state as the branch knowledge says and updates. -/
theorem isResultComplete_ok {r r' : StepResult B J H} {b : Bool} {bk : BranchKnowledge}
    {toId : BlockId} (h : rh.isResultComplete r bk toId = .ok (b, r')) :
    (r.currentId = toId ∧ b = true ∧ r' = r) ∨
      (r.currentId ≠ toId ∧ toId.number < r.currentId.number ∧ ∃ s₁,
        (s₁ = r.state ∨ (bk = .lowestId r.currentId ∧ s₁ = .everything) ∨
          (bk = .topImported r.currentId ∧ s₁ = .onlyJustification)) ∧
        ({ r with state := s₁ } : StepResult B J H).update rh.chainStatus = .ok (b, r')) := by
  unfold RequestHandler.isResultComplete at h
  by_cases hto : r.currentId = toId
  · rw [if_pos hto] at h
    simp only [Except.ok.injEq, Prod.mk.injEq] at h
    exact Or.inl ⟨hto, h.1.symm, h.2.symm⟩
  · rw [if_neg hto] at h
    by_cases hle : r.currentId.number ≤ toId.number
    · rw [if_pos hle] at h
      cases h
    · rw [if_neg hle] at h
      refine Or.inr ⟨hto, by omega, ?_⟩
      cases bk with
      | lowestId y =>
        dsimp only at h
        by_cases hy : y = r.currentId
        · rw [if_pos hy] at h
          exact ⟨.everything, Or.inr (Or.inl ⟨by rw [hy], rfl⟩), h⟩
        · rw [if_neg hy] at h
          exact ⟨r.state, Or.inl rfl, h⟩
      | topImported y =>
        dsimp only at h
        by_cases hy : y = r.currentId
        · rw [if_pos hy] at h
          exact ⟨.onlyJustification, Or.inr (Or.inr ⟨by rw [hy], rfl⟩), h⟩
        · rw [if_neg hy] at h
          exact ⟨r.state, Or.inl rfl, h⟩

/-- A round of the inner loop ends it at `toId`, or moves one block down. -/
theorem isResultComplete_moves (laws : HeaderLaws H) (hcs : rh.chainStatus.Consistent)
    {r r' : StepResult B J H} {b : Bool} {bk : BranchKnowledge} {toId : BlockId}
    (h : rh.isResultComplete r bk toId = .ok (b, r')) :
    (r.currentId = toId ∧ b = true ∧ r' = r) ∨ r'.head.id.number + 1 = r.head.id.number := by
  rcases isResultComplete_ok rh h with hdone | ⟨-, -, s₁, -, hu⟩
  · exact Or.inl hdone
  · exact Or.inr (HeadOfChunk.parent_number laws (update_ok hcs hu).2.2.1)

end Round

/-! ## A chunk while it is filled -/

/-- The blocks go down one chain, each the parent of the one before. -/
def Descending (headers : List H) : Prop :=
  headers.IsChain fun a b => Header.parentId a = some (Header.id b)

theorem Descending.reverse {headers : List H} (h : Descending headers) :
    Ascending headers.reverse :=
  List.isChain_reverse.mpr h

/-- Where the lowest block sent so far hangs: below the head, or, once blocks are no longer
sent, below the top imported block of the request. -/
def Below (bk : BranchKnowledge) (state : State) (p : BlockId) (h : H) : Prop :=
  (state ≠ .onlyJustification → Header.parentId h = some p) ∧
    (state = .onlyJustification → ∃ y, bk = .topImported y ∧ Header.parentId h = some y)

/-- Blocks stop being sent at the head `p`, or had stopped before. -/
theorem Below.onlyJustification {bk : BranchKnowledge} {s : State} {p q : BlockId} {h : H}
    (hb : Below bk s p h) (hs : s = .onlyJustification ∨ bk = .topImported p) :
    Below bk .onlyJustification q h := by
  refine ⟨fun hne => absurd rfl hne, fun _ => ?_⟩
  by_cases hso : s = .onlyJustification
  · exact hb.2 hso
  · rcases hs with hs | hs
    · exact absurd hs hso
    · exact ⟨p, hs, hb.1 hso⟩

/-- What the chunk started at `start` in state `s₀` holds while the inner loop fills it:
the blocks added so far go down from `start`'s block, the last one hangs below the head,
and all lie between the head and `start`. -/
structure ChunkInv (bk : BranchKnowledge) (start : HeadOfChunk J H) (s₀ : State)
    (r : StepResult B J H) : Prop where
  just : r.preChunk.just = (PreChunk.new start : PreChunk B J H).just
  chain : Descending (r.preChunk.blocks.map Block.header)
  first : ∀ b ∈ r.preChunk.blocks.head?, Header.id (Block.header b) = start.id
  last : ∀ b ∈ r.preChunk.blocks.getLast?, Below bk r.state r.head.id (Block.header b)
  empty : r.preChunk.blocks = [] → r.head.id = start.id ∨
    (r.state = .onlyJustification ∧ (s₀ = .onlyJustification ∨ bk = .topImported start.id))
  fresh : r.head.id.number = start.id.number → r.head.id = start.id ∧ r.state = s₀
  onlyJustification : s₀ = .onlyJustification →
    r.state = .onlyJustification ∧ r.preChunk.blocks = []
  topImported : r.state = .onlyJustification → ∃ y, bk = .topImported y
  headers : ∀ h ∈ r.preChunk.headers, ∃ b ∈ r.preChunk.blocks,
    Header.id (Block.header b) = Header.id h
  above : ∀ b ∈ r.preChunk.blocks, r.head.id.number < (Header.id (Block.header b)).number ∧
    (Header.id (Block.header b)).number ≤ start.id.number
  below : r.head.id.number ≤ start.id.number

section ChunkInv

variable {bk : BranchKnowledge} {start : HeadOfChunk J H} {s₀ s₁ : State}
  {r r' : StepResult B J H}

theorem chunkInv_new (hbk : s₀ = .onlyJustification → ∃ y, bk = .topImported y) :
    ChunkInv bk start s₀ (StepResult.new start s₀ : StepResult B J H) where
  just := rfl
  chain := by simp [StepResult.new, PreChunk.blocks_new, Descending]
  first b hb := by simp [StepResult.new, PreChunk.blocks_new] at hb
  last b hb := by simp [StepResult.new, PreChunk.blocks_new] at hb
  empty _ := Or.inl rfl
  fresh _ := ⟨rfl, rfl⟩
  onlyJustification h := ⟨h, PreChunk.blocks_new start⟩
  topImported h := hbk h
  headers h hh := by simp [StepResult.new, PreChunk.headers_new] at hh
  above b hb := by simp [StepResult.new, PreChunk.blocks_new] at hb
  below := le_rfl

/-- A round that adds nothing: blocks are not sent from this head on. -/
theorem ChunkInv.skip (hi : ChunkInv bk start s₀ r)
    (hs₁ : s₁ = r.state ∨ (bk = .lowestId r.currentId ∧ s₁ = .everything) ∨
      (bk = .topImported r.currentId ∧ s₁ = .onlyJustification))
    (hso : s₁ = .onlyJustification) (hst : r'.state = s₁) (hpc : r'.preChunk = r.preChunk)
    (hnum : r'.head.id.number + 1 = r.head.id.number) : ChunkInv bk start s₀ r' := by
  subst hso
  -- the switch to sending only justifications happened here or before
  have hsw : r.state = .onlyJustification ∨ bk = .topImported r.head.id := by
    rcases hs₁ with h | ⟨-, h⟩ | ⟨h, -⟩
    · exact Or.inl h.symm
    · cases h
    · exact Or.inr h
  have hbelow := hi.below
  refine ⟨hpc ▸ hi.just, hpc ▸ hi.chain, hpc ▸ hi.first, ?_, ?_, ?_, ?_, ?_, hpc ▸ hi.headers,
    ?_, by omega⟩
  · intro b hb
    rw [hst]
    exact (hi.last b (hpc ▸ hb)).onlyJustification hsw
  · intro h
    refine Or.inr ⟨hst, ?_⟩
    rcases hi.empty (hpc ▸ h) with hid | ⟨-, h'⟩
    · have hstate := (hi.fresh (by rw [hid])).2
      rcases hsw with h' | h'
      · exact Or.inl (hstate ▸ h')
      · exact Or.inr (hid ▸ h')
    · exact h'
  · intro h
    omega
  · intro h0
    exact ⟨hst, hpc ▸ (hi.onlyJustification h0).2⟩
  · intro _
    rcases hsw with h | h
    · exact hi.topImported h
    · exact ⟨_, h⟩
  · intro b hb
    have := hi.above b (hpc ▸ hb)
    exact ⟨by omega, this.2⟩

/-- A round that adds the block of the head and moves to its parent. -/
theorem ChunkInv.push (laws : HeaderLaws H) (hi : ChunkInv bk start s₀ r)
    (hrs : r.state ≠ .onlyJustification) (hso : s₁ ≠ .onlyJustification) (hst : r'.state = s₁)
    (hjust : r'.preChunk.just = r.preChunk.just) (hpar : r.head.parentId = some r'.head.id)
    (hnum : r'.head.id.number + 1 = r.head.id.number) {blk : B}
    (hblk : Header.id (Block.header blk) = r.head.id)
    (hbl : r'.preChunk.blocks = r.preChunk.blocks ++ [blk])
    (hhd : r'.preChunk.headers = r.preChunk.headers ∨
      r'.preChunk.headers = r.preChunk.headers ++ [Block.header blk]) :
    ChunkInv bk start s₀ r' := by
  have hbelow := hi.below
  refine ⟨hjust.trans hi.just, ?_, ?_, ?_, ?_, ?_, ?_, ?_, ?_, ?_, by omega⟩
  · -- the new block is the parent of the last one
    rw [Descending, hbl, List.map_append]
    refine List.IsChain.append hi.chain (List.isChain_singleton _) ?_
    intro a ha c hc
    rw [List.getLast?_map] at ha
    obtain ⟨b, hb, rfl⟩ := Option.map_eq_some_iff.mp ha
    cases hc
    rw [(hi.last b hb).1 hrs, hblk]
  · intro b hb
    rw [hbl] at hb
    cases hl : r.preChunk.blocks with
    | nil =>
      rw [hl] at hb
      cases hb
      rcases hi.empty hl with hid | ⟨h, -⟩
      · exact hblk.trans hid
      · exact absurd h hrs
    | cons x xs =>
      rw [hl] at hb
      exact hi.first b (by rw [hl]; exact hb)
  · intro b hb
    rw [hbl, List.getLast?_concat] at hb
    cases hb
    refine ⟨fun _ => ?_, fun h => absurd (hst ▸ h) hso⟩
    rw [HeadOfChunk.parentId_of_id laws hblk, hpar]
  · intro h
    rw [hbl] at h
    simp at h
  · intro h
    omega
  · intro h0
    exact absurd (hi.onlyJustification h0).1 hrs
  · intro h
    exact absurd (hst ▸ h) hso
  · intro h hh
    rw [hbl]
    rcases hhd with hhd | hhd <;> rw [hhd] at hh
    · obtain ⟨b, hb, hid⟩ := hi.headers h hh
      exact ⟨b, List.mem_append_left _ hb, hid⟩
    · rcases List.mem_append.mp hh with hh | hh
      · obtain ⟨b, hb, hid⟩ := hi.headers h hh
        exact ⟨b, List.mem_append_left _ hb, hid⟩
      · rw [List.mem_singleton.mp hh]
        exact ⟨blk, List.mem_append_right _ (List.mem_singleton_self _), rfl⟩
  · intro b hb
    rw [hbl] at hb
    rcases List.mem_append.mp hb with hb | hb
    · have := hi.above b hb
      exact ⟨by omega, this.2⟩
    · rw [List.mem_singleton.mp hb, hblk]
      exact ⟨by omega, hbelow⟩

variable (rh : RequestHandler B J H E)

theorem ChunkInv.round (laws : HeaderLaws H) (hcs : rh.chainStatus.Consistent)
    {toId : BlockId} {b : Bool} (hi : ChunkInv bk start s₀ r)
    (h : rh.isResultComplete r bk toId = .ok (b, r')) : ChunkInv bk start s₀ r' := by
  rcases isResultComplete_ok rh h with ⟨-, -, rfl⟩ | ⟨-, -, s₁, hs₁, hu⟩
  · exact hi
  obtain ⟨hst, hjust, hpar, hadd⟩ := update_ok hcs hu
  have hnum := HeadOfChunk.parent_number laws hpar
  rcases hadd with ⟨hso, hpc⟩ | ⟨hso, blk, hblk, hbl, hhd⟩
  · exact hi.skip hs₁ hso hst hpc hnum
  · -- blocks are sent at this head, so they were sent before it as well
    have hrs : r.state ≠ .onlyJustification := by
      intro hr
      rcases hs₁ with h | ⟨hl, -⟩ | ⟨-, h⟩
      · exact hso (h.trans hr)
      · obtain ⟨y, hy⟩ := hi.topImported hr
        rw [hy] at hl
        cases hl
      · exact hso h
    exact hi.push laws hrs hso hst hjust hpar hnum (hcs.block _ blk hblk) hbl hhd

end ChunkInv

/-! ## The two loops -/

section Loops

variable (rh : RequestHandler B J H E) {fuel : Nat} {bk : BranchKnowledge} {toId : BlockId}

theorem step_none {s₀ : State} {start : HeadOfChunk J H}
    (h : rh.step fuel s₀ start toId bk = .ok none) : start.id = toId := by
  unfold RequestHandler.step at h
  by_cases hst : start.id = toId
  · exact hst
  · rw [if_neg hst] at h
    obtain ⟨r, -, hr⟩ := Except.map_eq_ok.mp h
    cases hr

theorem step_run {s₀ : State} {start : HeadOfChunk J H} {r : StepResult B J H}
    (h : rh.step fuel s₀ start toId bk = .ok (some r)) : start.id ≠ toId ∧
      Except.repeatUntil (rh.isResultComplete · bk toId) fuel (StepResult.new start s₀) =
        .ok r := by
  unfold RequestHandler.step at h
  by_cases hst : start.id = toId
  · rw [if_pos hst] at h
    cases h
  rw [if_neg hst] at h
  obtain ⟨r', hrun, hr⟩ := Except.map_eq_ok.mp h
  cases hr
  exact ⟨hst, hrun⟩

variable (laws : HeaderLaws H) (hcs : rh.chainStatus.Consistent)
include laws hcs

/-- No round of the inner loop moves up. -/
theorem repeatUntil_isResultComplete_le {t t' : StepResult B J H}
    (h : Except.repeatUntil (rh.isResultComplete · bk toId) fuel t = .ok t') :
    t'.head.id.number ≤ t.head.id.number := by
  refine Except.repeatUntil_inv (fun u => u.head.id.number ≤ t.head.id.number) ?_ fuel t t'
    le_rfl h
  intro u b u' hu hb
  rcases isResultComplete_moves rh laws hcs hb with ⟨-, -, rfl⟩ | hm
  · exact hu
  · omega

/-- A chunk ends below where it started: the first round moves down, as the walk is not at
`toId` yet, and no round moves up. -/
theorem step_progress {s₀ : State} {start : HeadOfChunk J H} {r : StepResult B J H}
    (h : rh.step (fuel + 1) s₀ start toId bk = .ok (some r)) :
    r.head.id.number < start.id.number := by
  obtain ⟨hst, hrun⟩ := step_run rh h
  rcases Except.repeatUntil_succ_ok hrun with h1 | ⟨t, h1, hrest⟩
  · rcases isResultComplete_moves rh laws hcs h1 with ⟨hto, -, -⟩ | h1
    · exact absurd hto hst
    · change r.head.id.number + 1 = start.id.number at h1
      omega
  · rcases isResultComplete_moves rh laws hcs h1 with ⟨hto, -, -⟩ | h1
    · exact absurd hto hst
    · change t.head.id.number + 1 = start.id.number at h1
      have := repeatUntil_isResultComplete_le rh laws hcs hrest
      omega

/-- A chunk is what `ChunkInv` says. -/
theorem step_some {s₀ : State} {start : HeadOfChunk J H} {r : StepResult B J H}
    (hbk : s₀ = .onlyJustification → ∃ y, bk = .topImported y)
    (h : rh.step (fuel + 1) s₀ start toId bk = .ok (some r)) :
    ChunkInv bk start s₀ r ∧ r.head.id.number < start.id.number :=
  ⟨Except.repeatUntil_inv (ChunkInv bk start s₀) (fun _ _ _ hi hb => hi.round rh laws hcs hb)
    _ _ r (chunkInv_new hbk) (step_run rh h).2, step_progress rh laws hcs h⟩

/-- The inner loop ends by itself within the fuel the head's number gives. -/
theorem step_stable (k : Nat) {s₀ : State} {start : HeadOfChunk J H}
    (hf : start.id.number < fuel) :
    rh.step (fuel + k) s₀ start toId bk = rh.step fuel s₀ start toId bk := by
  have hdec : ∀ t t' : StepResult B J H, rh.isResultComplete t bk toId = .ok (false, t') →
      t'.head.id.number < t.head.id.number := by
    intro t t' h
    rcases isResultComplete_moves rh laws hcs h with ⟨-, h', -⟩ | h'
    · cases h'
    · omega
  unfold RequestHandler.step
  split
  · rfl
  · rw [Except.repeatUntil_stable (fun r : StepResult B J H => r.head.id.number) hdec k fuel _ hf]

end Loops

/-! ## The chunks sent so far -/

/-- The items of the chunks sent so far, lowest chunk first, as `response_items` returns
them. -/
def ResponseLoop.items (s : ResponseLoop B J H) : List (ResponseItem B J H) :=
  s.responseItems.reverse.flatten

/-- What the chunks sent so far, from `head₀` down to the loop's head, hold: a response from
`head₀` whose blocks, justifications and headers all lie above the loop's head. -/
structure Sent (head₀ : BlockId) (bk : BranchKnowledge) (s : ResponseLoop B J H) : Prop where
  chain : Ascending (blockHeaders s.items)
  last : ∀ h ∈ (blockHeaders s.items).getLast?, Header.id h = head₀
  first : ∀ h ∈ (blockHeaders s.items).head?, Below bk s.state s.head.id h
  start : blockHeaders s.items = [] → s.head.id = head₀ ∨ s.state = .onlyJustification
  topImported : s.state = .onlyJustification → ∃ y, bk = .topImported y
  blocksAbove : ∀ h ∈ blockHeaders s.items, s.head.id.number < (Header.id h).number
  justificationsAbove : ∀ id ∈ justificationIds s.items, s.head.id.number < id.number
  justificationsIncreasing : (justificationIds s.items).Pairwise fun a b => a.number < b.number
  justificationsFirst : JustificationsFirst s.items
  headersFirst : HeadersFirst s.items

section Sent

variable {head₀ : BlockId} {bk : BranchKnowledge} {s s' : ResponseLoop B J H}
  {r : StepResult B J H}

theorem sent_init (head : HeadOfChunk J H) :
    Sent head.id bk (⟨.everythingButHeader, head, []⟩ : ResponseLoop B J H) where
  chain := List.IsChain.nil
  last h hh := by simp [ResponseLoop.items, blockHeaders] at hh
  first h hh := by simp [ResponseLoop.items, blockHeaders] at hh
  start _ := Or.inl rfl
  topImported h := by cases h
  blocksAbove h hh := by simp [ResponseLoop.items, blockHeaders] at hh
  justificationsAbove id hid := by simp [ResponseLoop.items, justificationIds] at hid
  justificationsIncreasing := List.Pairwise.nil
  justificationsFirst j b hj := by simp [ResponseLoop.items] at hj
  headersFirst h hh := by simp [ResponseLoop.items] at hh

/-- A new chunk, filled from the loop's head down to a lower one, goes in front of the
chunks sent so far. -/
theorem Sent.push (hs : Sent head₀ bk s) (hc : ChunkInv bk s.head s.state r)
    (hlt : r.head.id.number < s.head.id.number)
    (hitems : s'.items = r.preChunk.intoChunk ++ s.items) (hst : s'.state = r.state)
    (hhd : s'.head = r.head) : Sent head₀ bk s' := by
  have hne : r.head.id ≠ s.head.id := fun h => by rw [h] at hlt; omega
  -- the chunk's only justification is that of the loop's head
  have hjust : ∀ id ∈ justificationIds r.preChunk.intoChunk, id = s.head.id := by
    intro id hid
    rw [justificationIds_intoChunk] at hid
    obtain ⟨j, hj, rfl⟩ := List.mem_map.mp hid
    exact PreChunk.id_just_new (hc.just ▸ Option.mem_toList.mp hj)
  refine ⟨?_, ?_, ?_, ?_, ?_, ?_, ?_, ?_, ?_, ?_⟩
  · -- the chunk's top block is the loop's head, the parent of what was sent before
    rw [hitems, blockHeaders_append, blockHeaders_intoChunk, Ascending]
    refine List.IsChain.append hc.chain.reverse hs.chain ?_
    intro x hx y hy
    rw [List.getLast?_reverse, List.head?_map] at hx
    obtain ⟨b, hb, rfl⟩ := Option.map_eq_some_iff.mp hx
    by_cases hso : s.state = .onlyJustification
    · rw [(hc.onlyJustification hso).2] at hb
      cases hb
    · rw [(hs.first y hy).1 hso, hc.first b hb]
  · intro h hh
    rw [hitems, blockHeaders_append, List.getLast?_append] at hh
    cases hl : (blockHeaders s.items).getLast? with
    | some h' =>
      rw [hl] at hh
      cases hh
      exact hs.last h hl
    | none =>
      rw [hl, Option.none_or, blockHeaders_intoChunk, List.getLast?_reverse, List.head?_map] at hh
      obtain ⟨b, hb, rfl⟩ := Option.map_eq_some_iff.mp hh
      rcases hs.start (List.getLast?_eq_none_iff.mp hl) with h0 | hso
      · exact (hc.first b hb).trans h0
      · rw [(hc.onlyJustification hso).2] at hb
        cases hb
  · intro h hh
    rw [hst, hhd]
    rw [hitems, blockHeaders_append, List.head?_append, blockHeaders_intoChunk,
      List.head?_reverse, List.getLast?_map] at hh
    cases hl : r.preChunk.blocks.getLast? with
    | some b =>
      rw [hl] at hh
      cases hh
      exact hc.last b hl
    | none =>
      -- nothing in this chunk: blocks stopped being sent at the loop's head or before
      rw [hl, Option.map_none, Option.none_or] at hh
      rcases hc.empty (List.getLast?_eq_none_iff.mp hl) with hid | ⟨hso, hsw⟩
      · exact absurd hid hne
      · rw [hso]
        exact (hs.first h hh).onlyJustification hsw
  · intro h
    rw [hitems, blockHeaders_append, List.append_eq_nil_iff, blockHeaders_intoChunk,
      List.reverse_eq_nil_iff, List.map_eq_nil_iff] at h
    rcases hc.empty h.1 with hid | ⟨hso, -⟩
    · exact absurd hid hne
    · exact Or.inr (hst.trans hso)
  · intro h
    exact hc.topImported (hst ▸ h)
  · intro h hh
    rw [hhd]
    rw [hitems, blockHeaders_append, List.mem_append] at hh
    rcases hh with hh | hh
    · rw [blockHeaders_intoChunk, List.mem_reverse] at hh
      obtain ⟨b, hb, rfl⟩ := List.mem_map.mp hh
      exact (hc.above b hb).1
    · have := hs.blocksAbove h hh
      omega
  · intro id hid
    rw [hhd]
    rw [hitems, justificationIds_append, List.mem_append] at hid
    rcases hid with hid | hid
    · rw [hjust id hid]
      exact hlt
    · have := hs.justificationsAbove id hid
      omega
  · rw [hitems, justificationIds_append, List.pairwise_append]
    refine ⟨?_, hs.justificationsIncreasing, fun a ha b hb => ?_⟩
    · rw [justificationIds_intoChunk]
      cases r.preChunk.just <;> simp
    · rw [hjust a ha]
      exact hs.justificationsAbove b hb
  · -- a justification and a block of one block lie in one chunk
    rw [hitems]
    refine (justificationsFirst_intoChunk _).append hs.justificationsFirst ?_
    rintro j b (⟨hj, hb⟩ | ⟨hj, hb⟩) hid
    · have hjs := hjust _ (List.mem_filterMap.mpr ⟨_, hj, rfl⟩)
      have := hs.blocksAbove _ (mem_blockHeaders hb)
      rw [← hid, hjs] at this
      omega
    · have := hs.justificationsAbove _ (List.mem_filterMap.mpr ⟨_, hj, rfl⟩)
      have hb' := (hc.above b ((mem_intoChunk_block _).mp hb)).2
      rw [hid] at this
      omega
  · rw [hitems]
    exact (headersFirst_intoChunk _ hc.headers).append hs.headersFirst

end Sent

/-! ## `response_items` -/

section ResponseItems

variable (rh : RequestHandler B J H E) {fuel : Nat} {bk : BranchKnowledge} {toId : BlockId}
  {s s' : ResponseLoop B J H}

theorem responseRound_true (h : rh.responseRound fuel bk toId s = .ok (true, s')) :
    rh.step fuel s.state s.head toId bk = .ok none ∧ s' = s := by
  unfold RequestHandler.responseRound at h
  cases hs : rh.step fuel s.state s.head toId bk with
  | error e => simp [hs] at h
  | ok o =>
    cases o with
    | none =>
      simp only [hs, Except.ok.injEq, Prod.mk.injEq] at h
      exact ⟨rfl, h.2.symm⟩
    | some r => simp [hs, StepResult.finish] at h

theorem responseRound_false (h : rh.responseRound fuel bk toId s = .ok (false, s')) :
    ∃ r, rh.step fuel s.state s.head toId bk = .ok (some r) ∧
      s' = ⟨r.state, r.head, s.responseItems ++ [r.preChunk.intoChunk]⟩ := by
  unfold RequestHandler.responseRound at h
  cases hs : rh.step fuel s.state s.head toId bk with
  | error e => simp [hs] at h
  | ok o =>
    cases o with
    | none => simp [hs] at h
    | some r =>
      simp only [hs, StepResult.finish, Except.ok.injEq, Prod.mk.injEq] at h
      exact ⟨r, rfl, h.2.symm⟩

variable (laws : HeaderLaws H) (hcs : rh.chainStatus.Consistent)
include laws hcs

/-- A round of the outer loop with fuel left sends a chunk and moves down. -/
theorem responseRound_moves (h : rh.responseRound (fuel + 1) bk toId s = .ok (false, s'))
    (hbk : s.state = .onlyJustification → ∃ y, bk = .topImported y) :
    ∃ r, ChunkInv bk s.head s.state r ∧ r.head.id.number < s.head.id.number ∧
      s' = ⟨r.state, r.head, s.responseItems ++ [r.preChunk.intoChunk]⟩ := by
  obtain ⟨r, hr, rfl⟩ := responseRound_false rh h
  obtain ⟨hc, hlt⟩ := step_some rh laws hcs hbk hr
  exact ⟨r, hc, hlt, rfl⟩

theorem Sent.round {head₀ : BlockId} (hs : Sent head₀ bk s) {b : Bool}
    (h : rh.responseRound (fuel + 1) bk toId s = .ok (b, s')) : Sent head₀ bk s' := by
  cases b with
  | true =>
    obtain ⟨-, rfl⟩ := responseRound_true rh h
    exact hs
  | false =>
    obtain ⟨r, hc, hlt, rfl⟩ := responseRound_moves rh laws hcs h hs.topImported
    refine hs.push hc hlt ?_ rfl rfl
    simp [ResponseLoop.items]

/-- What `response_items` returns on fuel above the head's number: the outer loop ends where
the walk reaches `toId`. -/
theorem responseItems_chained {head : HeadOfChunk J H} {items : List (ResponseItem B J H)}
    (hf : head.id.number < fuel) (h : rh.responseItems fuel head bk toId = .ok items) :
    ChainedResponse head.id toId bk items := by
  obtain ⟨F, rfl⟩ : ∃ F, fuel = F + 1 := ⟨fuel - 1, by omega⟩
  unfold RequestHandler.responseItems at h
  obtain ⟨s, hrun, rfl⟩ := Except.map_eq_ok.mp h
  -- the invariant, and the fuel left above the loop's head
  obtain ⟨t, ⟨ht, -⟩, hdone⟩ := Except.repeatUntil_exit
    (fun s : ResponseLoop B J H => Sent head.id bk s ∧ s.head.id.number < F + 1)
    (fun s b s' ⟨hs, hf⟩ hb => ⟨hs.round rh laws hcs hb, by
      cases b with
      | true => rw [(responseRound_true rh hb).2]; exact hf
      | false =>
        obtain ⟨r, -, hlt, rfl⟩ := responseRound_moves rh laws hcs hb hs.topImported
        exact lt_trans hlt hf⟩)
    (fun s : ResponseLoop B J H => s.head.id.number)
    (fun s s' ⟨hs, _⟩ hb => by
      obtain ⟨r, -, hlt, rfl⟩ := responseRound_moves rh laws hcs hb hs.topImported
      exact hlt)
    (F + 1) _ s ⟨sent_init head, hf⟩ hf hrun
  obtain ⟨hnone, rfl⟩ := responseRound_true rh hdone
  have hto := step_none rh hnone
  refine ⟨ht.chain, ht.last, fun h hh => ?_, ht.justificationsFirst,
    ht.justificationsIncreasing, ht.headersFirst⟩
  have hb := ht.first h hh
  rw [hto] at hb
  by_cases hso : s.state = .onlyJustification
  · exact Or.inr (hb.2 hso)
  · exact Or.inl (hb.1 hso)

/-- Both loops of `response_items` end by themselves within the fuel the head's number
gives: more fuel changes nothing. -/
theorem responseItems_stable {head : HeadOfChunk J H} (hf : head.id.number < fuel) :
    rh.responseItems fuel head bk toId = rh.responseItems (head.id.number + 1) head bk toId := by
  obtain ⟨k, rfl⟩ : ∃ k, fuel = head.id.number + 1 + k :=
    ⟨fuel - (head.id.number + 1), by omega⟩
  -- every round of the outer loop that goes on moves down
  have hdec : ∀ n (s s' : ResponseLoop B J H), 0 < n →
      rh.responseRound n bk toId s = .ok (false, s') → s'.head.id.number < s.head.id.number := by
    intro n s s' hn h
    obtain ⟨m, rfl⟩ : ∃ m, n = m + 1 := ⟨n - 1, by omega⟩
    obtain ⟨r, hr, rfl⟩ := responseRound_false rh h
    exact step_progress rh laws hcs hr
  -- below the head, a round on more fuel is a round on just enough
  have hround : ∀ s : ResponseLoop B J H, s.head.id.number ≤ head.id.number →
      rh.responseRound (head.id.number + 1 + k) bk toId s =
        rh.responseRound (head.id.number + 1) bk toId s := by
    intro s hs
    unfold RequestHandler.responseRound
    rw [step_stable rh laws hcs k (by omega : s.head.id.number < head.id.number + 1)]
  unfold RequestHandler.responseItems
  rw [Except.repeatUntil_congr (fun s : ResponseLoop B J H => s.head.id.number ≤ head.id.number)
      (fun s s' hs h => by have := hdec _ s s' (by omega) h; omega) hround _ _ le_rfl,
    Except.repeatUntil_stable (fun s : ResponseLoop B J H => s.head.id.number)
      (fun s s' h => hdec _ s s' (by omega) h) k (head.id.number + 1) _ (Nat.lt_succ_self _)]

end ResponseItems

/-! ## The receiving side -/

/-- After a block, the exemption of `handle_header` holds for every block that is the child
of the one before. -/
theorem lastImportedChecks_chain (x : H) (items : List (ResponseItem B J H))
    (hchain : Ascending (x :: blockHeaders items)) :
    ∀ c ∈ lastImportedChecks (some (Header.id x)) items, c = true := by
  induction items generalizing x with
  | nil =>
    intro c hc
    cases hc
  | cons item items ih =>
    intro c hc
    cases item with
    | justification j => exact ih x hchain c hc
    | header h => exact ih x hchain c hc
    | block b =>
      have hchain' : Ascending (x :: Block.header b :: blockHeaders items) := hchain
      rw [Ascending, List.isChain_cons_cons] at hchain'
      rcases List.mem_cons.mp hc with rfl | hc
      · simp [followsLastImported, hchain'.1]
      · exact ih (Block.header b) hchain'.2 c hc

/-- In a response whose blocks go up one chain, every block after the first passes the
check. -/
theorem lastImportedChecks_tail (items : List (ResponseItem B J H))
    (hchain : Ascending (blockHeaders items)) :
    ∀ c ∈ (lastImportedChecks none items).tail, c = true := by
  induction items with
  | nil =>
    intro c hc
    cases hc
  | cons item items ih =>
    intro c hc
    cases item with
    | justification j => exact ih hchain c hc
    | header h => exact ih hchain c hc
    | block b => exact lastImportedChecks_chain (Block.header b) items hchain c hc

/-! ## `action` -/

section Action

variable (rh : RequestHandler B J H E)

theorem Action.new_eq_response {items items' : List (ResponseItem B J H)}
    (h : Action.new items' = .response items) : items' = items := by
  unfold Action.new at h
  split at h
  · cases h
  · cases h
    rfl

/-- A response comes from the head `adjust_head` picks for the target. -/
theorem action_response {request : Request J H} {items : List (ResponseItem B J H)}
    (h : rh.action request = .ok (.response items)) :
    ∃ ourTop status head₀ head, rh.chainStatus.topFinalized = .ok ourTop ∧
      rh.chainStatus.statusOf (Header.id request.target) = .ok status ∧
      HeadOfChunk.ofStatus status = some head₀ ∧
      rh.adjustHead head₀ ourTop
        (rh.upperLimit (Header.id (Justification.header request.state.topJustification))) =
          .ok head ∧
      rh.responseItems (head.id.number + 1) head request.branchKnowledge
        (Header.id (Justification.header request.state.topJustification)) = .ok items := by
  unfold RequestHandler.action at h
  cases htop : rh.chainStatus.topFinalized with
  | error e => simp [htop] at h
  | ok ourTop =>
    simp only [htop] at h
    split at h
    · cases h
    cases hs : rh.chainStatus.statusOf (Header.id request.target) with
    | error e => simp [hs] at h
    | ok status =>
      simp only [hs] at h
      cases ho : HeadOfChunk.ofStatus status with
      | none => simp [ho] at h
      | some head₀ =>
        simp only [ho] at h
        cases ha : rh.adjustHead head₀ ourTop
            (rh.upperLimit (Header.id (Justification.header request.state.topJustification))) with
        | error e => simp [ha] at h
        | ok head =>
          simp only [ha] at h
          cases hr : rh.responseItems (head.id.number + 1) head request.branchKnowledge
              (Header.id (Justification.header request.state.topJustification)) with
          | error e => simp [hr] at h
          | ok items' =>
            simp only [hr, Except.ok.injEq] at h
            rw [Action.new_eq_response h] at hr
            exact ⟨ourTop, status, head₀, head, rfl, rfl, ho, ha, hr⟩

/-- `RequestHandler::action` terminates, as both loops of `response_items` end by themselves
within the fuel the head's number gives; and a response it sends goes up one chain from a
child of the requester's top justified block, or of the top imported block the request
names, to the head `adjust_head` picked, with each justification before the block it
justifies, the justifications going up in number and each header before its block; so on
the receiving side every block after the first passes the `last_imported` check. -/
theorem action_response_chained (laws : HeaderLaws H) (hcs : rh.chainStatus.Consistent) :
    (∀ (head : HeadOfChunk J H) bk toId fuel, head.id.number < fuel →
      rh.responseItems fuel head bk toId = rh.responseItems (head.id.number + 1) head bk toId) ∧
    ∀ request items, rh.action request = .ok (.response items) →
      ∃ ourTop status head₀ head, rh.chainStatus.topFinalized = .ok ourTop ∧
        rh.chainStatus.statusOf (Header.id request.target) = .ok status ∧
        HeadOfChunk.ofStatus status = some head₀ ∧
        rh.adjustHead head₀ ourTop
          (rh.upperLimit (Header.id (Justification.header request.state.topJustification))) =
            .ok head ∧
        ChainedResponse head.id (Header.id (Justification.header request.state.topJustification))
          request.branchKnowledge items ∧
        ∀ c ∈ (lastImportedChecks none items).tail, c = true := by
  refine ⟨fun head bk toId fuel hf => responseItems_stable rh laws hcs hf, ?_⟩
  intro request items h
  obtain ⟨ourTop, status, head₀, head, htop, hs, ho, ha, hr⟩ := action_response rh h
  have hch := responseItems_chained rh laws hcs (Nat.lt_succ_self _) hr
  exact ⟨ourTop, status, head₀, head, htop, hs, ho, ha, hch,
    lastImportedChecks_tail items hch.chain⟩

/-- A request for block 3 of a chain of four blocks from a node at the genesis, which knows
block 1 as the lowest block of the branch: headers are sent from block 1 down, and the
blocks go up from 1 to 3. -/
theorem action_response_chained_on_line :
    HeaderLaws ChainHeader ∧ (ChainStatus.line 3).Consistent ∧
    (⟨ChainStatus.line 3, ⟨⟨100⟩, by decide⟩⟩ : RequestHandler (SubstrateBlock ChainHeader)
        (SubstrateJustification ChainHeader Unit) ChainHeader Unit).action
      ⟨⟨3⟩, .lowestId ⟨1, 1⟩, ⟨⟨⟨0⟩, .genesis⟩, ⟨3⟩⟩⟩ =
      .ok (.response [.header ⟨1⟩, .block ⟨⟨1⟩⟩, .block ⟨⟨2⟩⟩, .block ⟨⟨3⟩⟩]) ∧
    ∀ c ∈ (lastImportedChecks none ([.header ⟨1⟩, .block ⟨⟨1⟩⟩, .block ⟨⟨2⟩⟩, .block ⟨⟨3⟩⟩] :
      List (ResponseItem (SubstrateBlock ChainHeader) (SubstrateJustification ChainHeader Unit)
        ChainHeader))).tail, c = true := by
  have hact : (⟨ChainStatus.line 3, ⟨⟨100⟩, by decide⟩⟩ : RequestHandler (SubstrateBlock ChainHeader)
      (SubstrateJustification ChainHeader Unit) ChainHeader Unit).action
        ⟨⟨3⟩, .lowestId ⟨1, 1⟩, ⟨⟨⟨0⟩, .genesis⟩, ⟨3⟩⟩⟩ =
      .ok (.response [.header ⟨1⟩, .block ⟨⟨1⟩⟩, .block ⟨⟨2⟩⟩, .block ⟨⟨3⟩⟩]) := rfl
  obtain ⟨-, -, -, -, -, -, -, -, -, hlast⟩ := (action_response_chained _ ChainHeader.headerLaws
    (ChainStatus.line_consistent 3)).2 _ _ hact
  exact ⟨ChainHeader.headerLaws, ChainStatus.line_consistent 3, hact, hlast⟩

end Action

end Selendra.Sync.Handler
