import Selendra.Sync.Forest.Finalize
import Selendra.Sync.Data

/-! # What the forest knows of a branch

`branch_knowledge` of `sync/forest/mod.rs` walks from a block down its known parents until it
meets an imported vertex or the root, the top imported ancestor, or a vertex with no known
parent, the lowest known one; `prepare_request_info` and `request_interest` put the answer
into the request for a block that sync wants. The walk gives up on a block it does not know and
on one that will never connect to the root; `prepare_request_info` counts on that never
happening from a vertex ("the branch of a Candidate always exists").

In a reachable forest it does not happen: the parent of a vertex is the root or a vertex
(`Consistent.linked`), one block lower, and no vertex is in a special state (`Bounded`). So
the walk from any vertex ends within its block number, at the answer `Knows` describes
(`branchKnowledge_of_candidate`). -/

namespace Selendra.Sync

variable {I H J : Type} [DecidableEq I] [LruCache.Ops I Unit] [Header H] [Justification J H]

/-- Our interest in a branch referred to by a vertex, with what a request for it needs. -/
inductive Interest (H I : Type) where
  | uninterested
  | required (header : H) (knowMost : List I) (branchKnowledge : BranchKnowledge)

namespace Forest

/-- `branch_knowledge`, its loop bounded by `fuel`: each turn moves to the parent. -/
def branchKnowledgeWith : Nat → Forest I H J → BlockId → Option BranchKnowledge
  | 0, _, _ => none
  | fuel + 1, f, id =>
    match f.get id with
    | .candidate vertex =>
      -- first encounter of an imported ancestor
      if vertex.vertex.imported then some (.topImported id)
      else match vertex.vertex.parent with
        | some parentId => branchKnowledgeWith fuel f parentId
        | none => some (.lowestId id)
    -- the root is the top imported ancestor
    | .special .highestFinalized => some (.topImported id)
    | .special _ => none
    | .unknown => none

/-- `branch_knowledge`; the block number bounds the walk, as a parent is one block lower. -/
def branchKnowledge (f : Forest I H J) (id : BlockId) : Option BranchKnowledge :=
  f.branchKnowledgeWith (id.number + 1) id

/-- `prepare_request_info`: only a vertex with a header is requested, and, unless forced,
only if it is requestable. -/
def prepareRequestInfo (f : Forest I H J) (id : BlockId) (force : Bool) :
    Option (H × List I × BranchKnowledge) :=
  match f.get id with
  | .candidate vertex =>
    if !(force || vertex.vertex.requestable) then none
    else match vertex.vertex.header with
      | some header =>
        (f.branchKnowledge id).map fun branchKnowledge =>
          (header, vertex.vertex.knowMostPeers, branchKnowledge)
      | none => none
  | _ => none

def requestInterest (f : Forest I H J) (id : BlockId) : Interest H I :=
  match f.prepareRequestInfo id false with
  | some (header, knowMost, branchKnowledge) => .required header knowMost branchKnowledge
  | none => .uninterested

/-- The answer about the branch of `id`, read off the chain of known parents from `id`: the
first imported vertex or the root on it, or the lowest vertex on it, one with no known parent,
if the chain meets neither. -/
inductive Knows (f : Forest I H J) : BlockId → BranchKnowledge → Prop
  | root : Knows f (Header.id f.root) (.topImported (Header.id f.root))
  | imported {id : BlockId} {v : VertexWithChildren I H J} : f.vertices.lookup id = some v →
      v.vertex.imported = true → Knows f id (.topImported id)
  | lowest {id : BlockId} {v : VertexWithChildren I H J} : f.vertices.lookup id = some v →
      v.vertex.imported = false → v.vertex.parent = none → Knows f id (.lowestId id)
  | parent {id p : BlockId} {v : VertexWithChildren I H J} {bk : BranchKnowledge} :
      f.vertices.lookup id = some v → v.vertex.imported = false → v.vertex.parent = some p →
      Knows f p bk → Knows f id bk

section Laws

variable (laws : HeaderLaws H)
include laws

/-- From a vertex or the root, a walk with more fuel than the height above the root ends,
with the answer of the chain. -/
theorem branchKnowledgeWith_knows {f : Forest I H J} (hb : f.Bounded) (hc : f.Consistent) :
    ∀ fuel id, (id ∈ f.vertices ∨ id = Header.id f.root) →
      id.number < (Header.id f.root).number + fuel →
      ∃ bk, f.branchKnowledgeWith fuel id = some bk ∧ f.Knows id bk
  | 0, id, hid, hn => by
    rcases hid with hmem | rfl
    · exact absurd (hb.above id hmem) (by omega)
    · omega
  | fuel + 1, id, hid, hn => by
    rcases hid with hmem | rfl
    · obtain ⟨v, hv⟩ := AList.mem_iff_lookup.mp hmem
      have hget : f.get id = .candidate v :=
        (get_eq_candidate f id v).mpr ⟨hb.specialState_none hmem, hv⟩
      cases hi : v.vertex.imported with
      | true =>
        refine ⟨_, ?_, .imported hv hi⟩
        simp only [branchKnowledgeWith, hget, hi, if_true]
      | false =>
        cases hp : v.vertex.parent with
        | none =>
          refine ⟨_, ?_, .lowest hv hi hp⟩
          simp only [branchKnowledgeWith, hget, hi, hp, Bool.false_eq_true, if_false]
        | some p =>
          -- the parent is the root or a vertex, one block lower
          have hnum : p.number + 1 = id.number := (hb.describes id v hv).parent_number laws hp
          have hp' : p ∈ f.vertices ∨ p = Header.id f.root := by
            rcases hc.linked id v p List.not_mem_nil hv hp with ⟨hr, -⟩ | ⟨w, hw, -⟩
            · exact Or.inr hr
            · exact Or.inl (mem_of_lookup hw)
          obtain ⟨bk, hbk, hk⟩ := branchKnowledgeWith_knows hb hc fuel p hp' (by omega)
          refine ⟨bk, ?_, .parent hv hi hp hk⟩
          simp only [branchKnowledgeWith, hget, hi, hp, hbk, Bool.false_eq_true, if_false]
    · have hget : f.get (Header.id f.root) = .special .highestFinalized :=
        (get_eq_special f _ _).mpr ((specialState_highestFinalized f _).mpr rfl)
      refine ⟨_, ?_, .root⟩
      simp only [branchKnowledgeWith, hget]

/-- In every reachable forest, `branch_knowledge` of a vertex ends, with the top imported
ancestor (the nearest imported vertex or the root on the chain of its known parents) or else
the lowest vertex of that chain; so `prepare_request_info` of a vertex with a header that is
requestable, or forced, always gives a request. -/
theorem branchKnowledge_of_candidate {f : Forest I H J} (hf : f.Reachable) {id : BlockId}
    (hid : id ∈ f.vertices) :
    ∃ bk, f.branchKnowledge id = some bk ∧ f.Knows id bk ∧
      ∀ v force header, f.vertices.lookup id = some v →
        (force || v.vertex.requestable) = true → v.vertex.header = some header →
        f.prepareRequestInfo id force = some (header, v.vertex.knowMostPeers, bk) := by
  have hb := hf.bounded
  obtain ⟨bk, hbk, hk⟩ := branchKnowledgeWith_knows laws hb (hf.consistent laws) (id.number + 1)
    id (Or.inl hid) (by omega)
  refine ⟨bk, hbk, hk, fun v force header hv hreq hh => ?_⟩
  have hget : f.get id = .candidate v :=
    (get_eq_candidate f id v).mpr ⟨hb.specialState_none hid, hv⟩
  have hbk' : f.branchKnowledge id = some bk := hbk
  simp only [prepareRequestInfo, hget, hreq, Bool.not_true, Bool.false_eq_true, if_false, hh,
    hbk', Option.map_some]

end Laws

theorem branchKnowledge_of_candidate_header :
    HeaderLaws ChainHeader ∧
    ((empty ⟨0⟩ : Forest Nat ChainHeader (SubstrateJustification ChainHeader Unit))
      |>.updateHeader ⟨3⟩ none true).2.Reachable ∧
    (⟨3, 3⟩ : BlockId) ∈ ((empty ⟨0⟩ : Forest Nat ChainHeader
      (SubstrateJustification ChainHeader Unit)) |>.updateHeader ⟨3⟩ none true).2.vertices ∧
    ∃ bk, ((empty ⟨0⟩ : Forest Nat ChainHeader (SubstrateJustification ChainHeader Unit))
      |>.updateHeader ⟨3⟩ none true).2.branchKnowledge ⟨3, 3⟩ = some bk ∧
      ((empty ⟨0⟩ : Forest Nat ChainHeader (SubstrateJustification ChainHeader Unit))
        |>.updateHeader ⟨3⟩ none true).2.Knows ⟨3, 3⟩ bk ∧
      ∀ v force header, ((empty ⟨0⟩ : Forest Nat ChainHeader
          (SubstrateJustification ChainHeader Unit)) |>.updateHeader ⟨3⟩ none true).2.vertices.lookup
          ⟨3, 3⟩ = some v → (force || v.vertex.requestable) = true → v.vertex.header = some header →
        ((empty ⟨0⟩ : Forest Nat ChainHeader (SubstrateJustification ChainHeader Unit))
          |>.updateHeader ⟨3⟩ none true).2.prepareRequestInfo ⟨3, 3⟩ force =
          some (header, v.vertex.knowMostPeers, bk) := by
  have hf := Reachable.step (.empty _) (.updateHeader (I := Nat) (J := SubstrateJustification
    ChainHeader Unit) (empty ⟨0⟩) ⟨3⟩ none true)
  have hmem : (⟨3, 3⟩ : BlockId) ∈ ((empty ⟨0⟩ : Forest Nat ChainHeader
      (SubstrateJustification ChainHeader Unit)) |>.updateHeader ⟨3⟩ none true).2.vertices := by
    decide
  exact ⟨ChainHeader.headerLaws, hf, hmem, branchKnowledge_of_candidate ChainHeader.headerLaws hf hmem⟩

/-- The header of block 3 with the header of block 2 unknown: the lowest known ancestor is
block 2, known only as the parent. -/
example : ((empty ⟨0⟩ : Forest Nat ChainHeader (SubstrateJustification ChainHeader Unit))
    |>.updateHeader ⟨3⟩ none true).2.branchKnowledge ⟨3, 3⟩ = some (.lowestId ⟨2, 2⟩) := by
  decide

end Forest

end Selendra.Sync
