import Selendra.Block.Basic
import Selendra.Collections.Lru

/-! # Vertices of the sync forest

`sync/forest/vertex.rs`: what the forest knows about one block, how much we want it and
which peers know most about it. An operation that mutates the vertex and returns a
`bool` returns the pair. The lemmas say what each operation does to the views the
forest reads: `importable`, `imported`, `justifiedBlock` and `parent`; the forest's
invariants are proved from them without unfolding the vertex again. -/

namespace Selendra.Sync

def MAX_KNOW_MOST : Nat := 200

inductive Importance where
  | auxiliary
  | required
  | explicitlyRequired
deriving DecidableEq, Repr

inductive HeaderImportance where
  | imported
  | unimported (importance : Importance)
deriving DecidableEq, Repr

set_option linter.constructorNameAsVariable false in
inductive InnerVertex (H J : Type) where
  /-- Empty vertex. -/
  | empty (required : Importance)
  /-- Vertex with added header. -/
  | header (importance : HeaderImportance) (header : H)
  /-- Vertex with added header and justification. -/
  | justification (imported : Bool) (justification : J) (parent : BlockId)

/-- The vertex, with the peers that know most about its block (an LRU of
`MAX_KNOW_MOST` peers). -/
structure Vertex (I H J : Type) where
  inner : InnerVertex H J
  knowMost : LruCache I Unit

set_option linter.unusedSectionVars false

variable {I H J : Type} [DecidableEq I] [LruCache.Ops I Unit] [Header H] [Justification J H]

/-- `LruCache::put` of an optional holder. -/
def putHolder (c : LruCache I Unit) : Option I → LruCache I Unit
  | some peer => c.put peer ()
  | none => c

namespace Vertex

def new : Vertex I H J := ⟨.empty .auxiliary, LruCache.new MAX_KNOW_MOST⟩

/-- Whether we want the referenced block in our database. -/
def importable (v : Vertex I H J) : Bool :=
  match v.inner with
  | .empty .required | .empty .explicitlyRequired => true
  | .header (.unimported .required) _ | .header (.unimported .explicitlyRequired) _ => true
  | .justification false _ _ => true
  | _ => false

/-- Whether the referenced block should be requested. -/
def requestable (v : Vertex I H J) : Bool :=
  match v.inner with
  | .empty .explicitlyRequired | .header (.unimported .explicitlyRequired) _ => true
  | _ => false

def imported (v : Vertex I H J) : Bool :=
  match v.inner with
  | .header .imported _ | .justification true _ _ => true
  | _ => false

/-- Whether the vertex represents an imported justified block. -/
def justifiedBlock (v : Vertex I H J) : Bool :=
  match v.inner with
  | .justification true _ _ => true
  | _ => false

/-- The justification if the block is already imported, otherwise the vertex back. -/
def ready (v : Vertex I H J) : Except (Vertex I H J) J :=
  match v.inner with
  | .justification true justification _ => .ok justification
  | _ => .error v

def parent (v : Vertex I H J) : Option BlockId :=
  match v.inner with
  | .empty _ => none
  | .header _ header => Header.parentId header
  | .justification _ _ parent => some parent

def header (v : Vertex I H J) : Option H :=
  match v.inner with
  | .empty _ => none
  | .header _ header => some header
  | .justification _ justification _ => some (Justification.header justification)

/-- `know_most`: the peers which know most about the block. -/
def knowMostPeers (v : Vertex I H J) : List I := v.knowMost.keys

/-- Returns whether anything changed, i.e. the vertex was neither explicitly required nor
imported before. -/
def setExplicitlyRequired (v : Vertex I H J) : Bool × Vertex I H J :=
  match v.inner with
  | .empty .required | .empty .auxiliary => (true, { v with inner := .empty .explicitlyRequired })
  | .header (.unimported .required) header | .header (.unimported .auxiliary) header =>
    (true, { v with inner := .header (.unimported .explicitlyRequired) header })
  | _ => (false, v)

/-- Returns whether anything changed, i.e. the vertex was neither required nor imported. -/
def setRequired (v : Vertex I H J) : Bool × Vertex I H J :=
  match v.inner with
  | .empty .auxiliary => (true, { v with inner := .empty .required })
  | .header (.unimported .auxiliary) header =>
    (true, { v with inner := .header (.unimported .required) header })
  | _ => (false, v)

/-- Does nothing if we already have a justification. -/
def addBlockHolder (v : Vertex I H J) (holder : Option I) : Vertex I H J :=
  match v.inner with
  | .justification .. => v
  | _ => { v with knowMost := putHolder v.knowMost holder }

set_option linter.constructorNameAsVariable false in
/-- Returns whether this is a new header. -/
def insertHeader (v : Vertex I H J) (header : H) (holder : Option I) : Bool × Vertex I H J :=
  let v := v.addBlockHolder holder
  match v.inner with
  | .empty required => (true, { v with inner := .header (.unimported required) header })
  | _ => (false, v)

/-- Marks the block imported; returns whether it was not imported before. -/
def insertBody (v : Vertex I H J) (header : H) : Bool × Vertex I H J :=
  match v.inner with
  | .empty _ | .header (.unimported _) _ => (true, { v with inner := .header .imported header })
  | .justification false justification parent =>
    (true, { v with inner := .justification true justification parent })
  | _ => (false, v)

def insertJustification (v : Vertex I H J) (parent : BlockId) (justification : J)
    (holder : Option I) : Vertex I H J :=
  match v.inner with
  | .empty _ | .header (.unimported _) _ =>
    ⟨.justification false justification parent, putHolder v.knowMost.clear holder⟩
  | .header .imported _ =>
    ⟨.justification true justification parent, putHolder v.knowMost.clear holder⟩
  | .justification .. => { v with knowMost := putHolder v.knowMost holder }

/-! ## What the operations do to the views -/

/-- Importable or imported: what the parent of an importable vertex has to be. -/
def Wanted (v : Vertex I H J) : Prop := v.importable = true ∨ v.imported = true

/-- The header and justification held are those of block `k`, and the parent is the one
their header names. -/
def Describes (k : BlockId) (v : Vertex I H J) : Prop :=
  ∀ h, v.header = some h → Header.id h = k ∧ v.parent = Header.parentId h

/-- `v'` knows at least what `v` knows: being imported, a justified block, wanted, and
having a header all persist. -/
structure Grows (v v' : Vertex I H J) : Prop where
  imported : v.imported = true → v'.imported = true
  justifiedBlock : v.justifiedBlock = true → v'.justifiedBlock = true
  wanted : v.Wanted → v'.Wanted
  header : v.header.isSome → v'.header.isSome

theorem Grows.refl (v : Vertex I H J) : Grows v v := ⟨id, id, id, id⟩

theorem Grows.trans {v₁ v₂ v₃ : Vertex I H J} (h₁ : Grows v₁ v₂) (h₂ : Grows v₂ v₃) :
    Grows v₁ v₃ :=
  ⟨h₂.imported ∘ h₁.imported, h₂.justifiedBlock ∘ h₁.justifiedBlock, h₂.wanted ∘ h₁.wanted,
    h₂.header ∘ h₁.header⟩

theorem header_isSome_of_parent {v : Vertex I H J} {p : BlockId} (h : v.parent = some p) :
    v.header.isSome := by
  rcases v with ⟨_ | _ | _, _⟩ <;> simp_all [parent, header]

theorem header_isSome_of_imported {v : Vertex I H J} (h : v.imported = true) :
    v.header.isSome := by
  rcases v with ⟨_ | ⟨(_ | _), _⟩ | _, _⟩ <;> simp_all [imported, header]

theorem justifiedBlock_imported {v : Vertex I H J} (h : v.justifiedBlock = true) :
    v.imported = true := by
  rcases v with ⟨_ | _ | ⟨_ | _, _, _⟩, _⟩ <;> simp_all [justifiedBlock, imported]

theorem ready_of_justifiedBlock {v : Vertex I H J} (h : v.justifiedBlock = true) :
    ∃ justification parent, v.inner = .justification true justification parent ∧
      v.ready = .ok justification := by
  rcases v with ⟨_ | _ | ⟨_ | _, j, p⟩, _⟩ <;> simp_all [justifiedBlock, ready]

/-- The justification a vertex is ready with is the one of its header. -/
theorem header_of_ready {v : Vertex I H J} {j : J} (h : v.ready = .ok j) :
    v.header = some (Justification.header j) := by
  rcases v with ⟨_ | _ | ⟨_ | _, j', _⟩, _⟩ <;> simp_all [ready, header]

theorem Describes.of_views {k : BlockId} {v v' : Vertex I H J} (hd : v.Describes k)
    (hh : v'.header = v.header) (hp : v'.parent = v.parent) : v'.Describes k := by
  intro h hs
  rw [hh] at hs
  rw [hp]
  exact hd h hs

/-- With the header laws, a vertex describing `k` that has a header has the parent every
header of `k` names. -/
theorem Describes.parent_of_id (laws : HeaderLaws H) {k : BlockId} {v : Vertex I H J} {h : H}
    (hd : v.Describes k) (hs : v.header.isSome) (hk : Header.id h = k) :
    v.parent = Header.parentId h := by
  obtain ⟨h', hh'⟩ := Option.isSome_iff_exists.mp hs
  obtain ⟨hk', hp⟩ := hd h' hh'
  rw [hp, laws.parent_determined h' h (hk'.trans hk.symm)]

/-- The parent is one block lower than the vertex. -/
theorem Describes.parent_number (laws : HeaderLaws H) {k p : BlockId} {v : Vertex I H J}
    (hd : v.Describes k) (hp : v.parent = some p) : p.number + 1 = k.number := by
  obtain ⟨h, hh⟩ := Option.isSome_iff_exists.mp (header_isSome_of_parent hp)
  obtain ⟨hk, hpar⟩ := hd h hh
  rw [← hk]
  exact laws.parent_number h p (hpar ▸ hp)

theorem describes_new (k : BlockId) : (Vertex.new : Vertex I H J).Describes k := by
  intro h hh
  cases hh

/-- `w` stands for the block of `v` in the same place: the same parent, a header exactly
when `v` has one, and imported exactly when `v` is. -/
structure Same (v w : Vertex I H J) : Prop where
  parent : w.parent = v.parent
  header : w.header.isSome = v.header.isSome
  imported : w.imported = v.imported

theorem Same.refl (v : Vertex I H J) : Same v v := ⟨rfl, rfl, rfl⟩

theorem Same.trans {v₁ v₂ v₃ : Vertex I H J} (h₁ : Same v₁ v₂) (h₂ : Same v₂ v₃) :
    Same v₁ v₃ :=
  ⟨h₂.parent.trans h₁.parent, h₂.header.trans h₁.header, h₂.imported.trans h₁.imported⟩

section Operations

variable (v : Vertex I H J)

theorem grows_setRequired : Grows v v.setRequired.2 := by
  rcases v with ⟨(_ | _ | _) | ⟨(_ | (_ | _ | _)), _⟩ | ⟨(_ | _), _, _⟩, _⟩ <;>
    constructor <;> simp [setRequired, imported, justifiedBlock, Wanted, importable, header]

theorem grows_setExplicitlyRequired : Grows v v.setExplicitlyRequired.2 := by
  rcases v with ⟨(_ | _ | _) | ⟨(_ | (_ | _ | _)), _⟩ | ⟨(_ | _), _, _⟩, _⟩ <;>
    constructor <;> simp [setExplicitlyRequired, imported, justifiedBlock, Wanted, importable, header]

theorem grows_addBlockHolder (holder : Option I) : Grows v (v.addBlockHolder holder) := by
  rcases v with ⟨(_ | _ | _) | ⟨(_ | (_ | _ | _)), _⟩ | ⟨(_ | _), _, _⟩, _⟩ <;>
    constructor <;> simp [addBlockHolder, imported, justifiedBlock, Wanted, importable, header]

theorem grows_insertHeader (h : H) (holder : Option I) : Grows v (v.insertHeader h holder).2 := by
  rcases v with ⟨(_ | _ | _) | ⟨(_ | (_ | _ | _)), _⟩ | ⟨(_ | _), _, _⟩, _⟩ <;>
    constructor <;>
    simp [insertHeader, addBlockHolder, imported, justifiedBlock, Wanted, importable, header]

theorem grows_insertBody (h : H) : Grows v (v.insertBody h).2 := by
  rcases v with ⟨(_ | _ | _) | ⟨(_ | (_ | _ | _)), _⟩ | ⟨(_ | _), _, _⟩, _⟩ <;>
    constructor <;> simp [insertBody, imported, justifiedBlock, Wanted, importable, header]

theorem grows_insertJustification (p : BlockId) (j : J) (holder : Option I) :
    Grows v (v.insertJustification p j holder) := by
  rcases v with ⟨(_ | _ | _) | ⟨(_ | (_ | _ | _)), _⟩ | ⟨(_ | _), _, _⟩, _⟩ <;>
    constructor <;>
    simp [insertJustification, imported, justifiedBlock, Wanted, importable, header]

theorem describes_setRequired {k : BlockId} (hd : v.Describes k) :
    v.setRequired.2.Describes k := by
  apply hd.of_views <;>
    rcases v with ⟨(_ | _ | _) | ⟨(_ | (_ | _ | _)), _⟩ | _, _⟩ <;> rfl

theorem describes_setExplicitlyRequired {k : BlockId} (hd : v.Describes k) :
    v.setExplicitlyRequired.2.Describes k := by
  apply hd.of_views <;>
    rcases v with ⟨(_ | _ | _) | ⟨(_ | (_ | _ | _)), _⟩ | _, _⟩ <;> rfl

theorem describes_addBlockHolder {k : BlockId} (holder : Option I) (hd : v.Describes k) :
    (v.addBlockHolder holder).Describes k := by
  apply hd.of_views <;> rcases v with ⟨_ | _ | _, _⟩ <;> rfl

theorem describes_insertHeader {k : BlockId} {h : H} (holder : Option I) (hk : Header.id h = k)
    (hd : v.Describes k) : (v.insertHeader h holder).2.Describes k := by
  rcases v with ⟨_ | _ | _, km⟩
  · intro h' hh'
    simp only [insertHeader, addBlockHolder, header, Option.some.injEq] at hh'
    subst hh'
    exact ⟨hk, rfl⟩
  all_goals exact hd.of_views rfl rfl

theorem describes_insertBody {k : BlockId} {h : H} (hk : Header.id h = k) (hd : v.Describes k) :
    (v.insertBody h).2.Describes k := by
  have hnew : (⟨.header .imported h, v.knowMost⟩ : Vertex I H J).Describes k := by
    intro h' hh'
    simp only [header, Option.some.injEq] at hh'
    subst hh'
    exact ⟨hk, rfl⟩
  rcases v with ⟨_ | ⟨(_ | _), _⟩ | ⟨(_ | _), _, _⟩, km⟩
  · exact hnew
  · exact hd.of_views rfl rfl
  · exact hnew
  · exact hd.of_views rfl rfl
  · exact hd.of_views rfl rfl

theorem describes_insertJustification {k p : BlockId} {j : J} (holder : Option I)
    (hk : Header.id (Justification.header j) = k)
    (hp : Header.parentId (Justification.header j) = some p) (hd : v.Describes k) :
    (v.insertJustification p j holder).Describes k := by
  have hnew : ∀ (b : Bool) (c : LruCache I Unit),
      (⟨.justification b j p, c⟩ : Vertex I H J).Describes k := by
    intro b c h' hh'
    simp only [header, Option.some.injEq] at hh'
    subst hh'
    exact ⟨hk, hp.symm⟩
  rcases v with ⟨_ | ⟨(_ | _), _⟩ | _, km⟩
  · exact hnew _ _
  · exact hnew _ _
  · exact hnew _ _
  · exact hd.of_views rfl rfl

theorem wanted_setRequired : v.setRequired.2.Wanted := by
  rcases v with ⟨(_ | _ | _) | ⟨(_ | (_ | _ | _)), _⟩ | ⟨(_ | _), _, _⟩, _⟩ <;>
    simp [setRequired, Wanted, importable, imported]

theorem setRequired_of_false (h : v.setRequired.1 = false) : v.setRequired.2 = v := by
  rcases v with ⟨(_ | _ | _) | ⟨(_ | (_ | _ | _)), _⟩ | _, _⟩ <;> simp_all [setRequired]

theorem wanted_setExplicitlyRequired : v.setExplicitlyRequired.2.Wanted := by
  rcases v with ⟨(_ | _ | _) | ⟨(_ | (_ | _ | _)), _⟩ | ⟨(_ | _), _, _⟩, _⟩ <;>
    simp [setExplicitlyRequired, Wanted, importable, imported]

theorem header_isSome_insertHeader (h : H) (holder : Option I) :
    (v.insertHeader h holder).2.header.isSome := by
  rcases v with ⟨_ | _ | _, _⟩ <;> simp [insertHeader, addBlockHolder, header]

theorem imported_insertBody (h : H) : (v.insertBody h).2.imported = true := by
  rcases v with ⟨_ | ⟨(_ | _), _⟩ | ⟨(_ | _), _, _⟩, _⟩ <;> simp [insertBody, imported]

/-- `insert_body` reports whether the block was not imported before. -/
theorem insertBody_fst (h : H) : (v.insertBody h).1 = !v.imported := by
  rcases v with ⟨_ | ⟨(_ | _), _⟩ | ⟨(_ | _), _, _⟩, _⟩ <;> simp [insertBody, imported]

theorem insertBody_of_imported (h : H) (hi : v.imported = true) : (v.insertBody h).2 = v := by
  rcases v with ⟨_ | ⟨(_ | _), _⟩ | ⟨(_ | _), _, _⟩, _⟩ <;> simp_all [insertBody, imported]

theorem wanted_insertJustification (p : BlockId) (j : J) (holder : Option I) :
    (v.insertJustification p j holder).Wanted := by
  rcases v with ⟨_ | ⟨(_ | _), _⟩ | ⟨(_ | _), _, _⟩, _⟩ <;>
    simp [insertJustification, Wanted, importable, imported]

theorem same_setRequired : Same v v.setRequired.2 := by
  rcases v with ⟨(_ | _ | _) | ⟨(_ | (_ | _ | _)), _⟩ | _, _⟩ <;> exact ⟨rfl, rfl, rfl⟩

theorem same_setExplicitlyRequired : Same v v.setExplicitlyRequired.2 := by
  rcases v with ⟨(_ | _ | _) | ⟨(_ | (_ | _ | _)), _⟩ | _, _⟩ <;> exact ⟨rfl, rfl, rfl⟩

theorem same_addBlockHolder (holder : Option I) : Same v (v.addBlockHolder holder) := by
  rcases v with ⟨_ | _ | _, _⟩ <;> exact ⟨rfl, rfl, rfl⟩

/-- A second header for a block with a header changes only the peers. -/
theorem insertHeader_of_header (h : H) (holder : Option I) (hh : v.header.isSome) :
    (v.insertHeader h holder).2 = v.addBlockHolder holder := by
  rcases v with ⟨_ | _ | _, _⟩
  · simp [header] at hh
  all_goals rfl

/-- A justification for a block with a header, naming the parent it already has. -/
theorem same_insertJustification {p : BlockId} (j : J) (holder : Option I)
    (hh : v.header.isSome) (hp : v.parent = some p) :
    Same v (v.insertJustification p j holder) := by
  rcases v with ⟨_ | ⟨(_ | _), _⟩ | _, _⟩
  · simp [header] at hh
  · exact ⟨hp.symm, rfl, rfl⟩
  · exact ⟨hp.symm, rfl, rfl⟩
  -- a justification already there is kept, with its parent
  · exact ⟨rfl, rfl, rfl⟩

/-- A first header gives the vertex the parent the header names. -/
theorem parent_insertHeader_of_none (h : H) (holder : Option I) (hh : v.header = none) :
    (v.insertHeader h holder).2.parent = Header.parentId h := by
  rcases v with ⟨_ | _ | _, _⟩
  · rfl
  all_goals simp [header] at hh

theorem importable_addBlockHolder (holder : Option I) :
    (v.addBlockHolder holder).importable = v.importable := by
  rcases v with ⟨_ | _ | _, _⟩ <;> rfl

theorem imported_insertHeader (h : H) (holder : Option I) :
    (v.insertHeader h holder).2.imported = v.imported := by
  rcases v with ⟨_ | _ | _, _⟩ <;> rfl

/-- Marking imported keeps the parent, or takes the one the new header names. -/
theorem parent_insertBody (h : H) :
    (v.insertBody h).2.parent = v.parent ∨ (v.insertBody h).2.parent = Header.parentId h := by
  rcases v with ⟨_ | ⟨(_ | _), _⟩ | ⟨(_ | _), _, _⟩, _⟩
  all_goals first | exact Or.inl rfl | exact Or.inr rfl

theorem importable_insertBody (h : H) : (v.insertBody h).2.importable = false := by
  rcases v with ⟨_ | ⟨(_ | _), _⟩ | ⟨(_ | _), _, _⟩, _⟩ <;> rfl

end Operations

end Vertex

end Selendra.Sync
