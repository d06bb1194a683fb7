import Mathlib
import Selendra.Session.Basic
import Selendra.Collections.Map

/-! # The shared session map

`SharedSessionMap` of `session_map.rs`: the authority data of each session, shared between
the updater that writes it and the readers that wait for it. A reader subscribes to the
insertion of a session with a one-shot channel; the channel fires at once when the data is
there, and otherwise waits in the map of subscribers until the session is inserted.
Pruning drops both the data and the waiting subscribers of the sessions below a bound.

Each of `update`, `prune_below` and `subscribe_to_insertion` takes the map's lock once, so a
run of the map is a sequence of these operations in any order the tasks take the lock. A
channel is its sender, of an arbitrary type, and a message sent is the pair of the sender
and the data.

The result: when every subscription brings its own channel and sessions are stored in
increasing order, above every pruning bound so far, each subscriber receives one message at
most, always data stored for its session, and receives it whenever its session is there at
the subscription or is stored later. -/

namespace Selendra.SessionMap

structure SharedSessionMap (D Sub : Type) where
  sessionMap : AList (fun _ : SessionId => D)
  subscribers : AList (fun _ : SessionId => List Sub)

/-- One operation on the map, taking its lock once. -/
inductive MapOp (D Sub : Type)
  | update (id : SessionId) (authorityData : D)
  | pruneBelow (id : SessionId)
  | subscribeToInsertion (id : SessionId) (sender : Sub)

variable {D Sub : Type}

namespace SharedSessionMap

def new : SharedSessionMap D Sub := ⟨∅, ∅⟩

/-- `update`: the subscribers of the session are sent the data and dropped, and the data
is stored. -/
def update (m : SharedSessionMap D Sub) (id : SessionId) (authorityData : D) :
    SharedSessionMap D Sub × List (Sub × D) :=
  let sent := ((m.subscribers.lookup id).getD []).map fun sender => (sender, authorityData)
  ({ sessionMap := m.sessionMap.insert id authorityData,
     subscribers := m.subscribers.erase id }, sent)

def pruneBelow (m : SharedSessionMap D Sub) (id : SessionId) : SharedSessionMap D Sub :=
  { sessionMap := m.sessionMap.retain fun s _ => decide (id.n ≤ s.n),
    subscribers := m.subscribers.retain fun s _ => decide (id.n ≤ s.n) }

/-- `subscribe_to_insertion`: the data is sent at once when it is there; otherwise the
sender waits among the session's subscribers. -/
def subscribeToInsertion (m : SharedSessionMap D Sub) (id : SessionId) (sender : Sub) :
    SharedSessionMap D Sub × List (Sub × D) :=
  match m.sessionMap.lookup id with
  | some authorityData => (m, [(sender, authorityData)])
  | none =>
    ({ m with subscribers := m.subscribers.insert id ((m.subscribers.lookup id).getD [] ++ [sender]) },
      [])

def apply (m : SharedSessionMap D Sub) : MapOp D Sub → SharedSessionMap D Sub × List (Sub × D)
  | .update id authorityData => m.update id authorityData
  | .pruneBelow id => (m.pruneBelow id, [])
  | .subscribeToInsertion id sender => m.subscribeToInsertion id sender

/-- A run of operations, with the messages sent. -/
def runOps (m : SharedSessionMap D Sub) (ops : List (MapOp D Sub)) :
    SharedSessionMap D Sub × List (Sub × D) :=
  ops.foldl (fun acc op => ((acc.1.apply op).1, acc.2 ++ (acc.1.apply op).2)) (m, [])

theorem foldl_apply (ops : List (MapOp D Sub)) (m : SharedSessionMap D Sub)
    (out : List (Sub × D)) :
    ops.foldl (fun acc op => ((acc.1.apply op).1, acc.2 ++ (acc.1.apply op).2)) (m, out) =
      ((runOps m ops).1, out ++ (runOps m ops).2) := by
  induction ops generalizing m out with
  | nil => simp [runOps]
  | cons op ops ih =>
    simp only [List.foldl_cons, runOps, List.nil_append]
    rw [ih, ih ((m.apply op).1) ((m.apply op).2), List.append_assoc]

theorem runOps_append (m : SharedSessionMap D Sub) (ops ops' : List (MapOp D Sub)) :
    runOps m (ops ++ ops') =
      ((runOps (runOps m ops).1 ops').1, (runOps m ops).2 ++ (runOps (runOps m ops).1 ops').2) := by
  rw [runOps, List.foldl_append]
  exact foldl_apply ops' _ _

/-- The senders waiting for a session. -/
def subscribersOf (m : SharedSessionMap D Sub) (id : SessionId) : List Sub :=
  (m.subscribers.lookup id).getD []

@[simp] theorem lookup_update (m : SharedSessionMap D Sub) (id : SessionId) (d : D)
    (id' : SessionId) :
    (m.update id d).1.sessionMap.lookup id' = if id' = id then some d else m.sessionMap.lookup id' := by
  by_cases h : id' = id
  · subst h
    simp [update, AList.lookup_insert]
  · simp [update, AList.lookup_insert_ne h, h]

@[simp] theorem subscribersOf_update (m : SharedSessionMap D Sub) (id : SessionId) (d : D)
    (id' : SessionId) :
    (m.update id d).1.subscribersOf id' = if id' = id then [] else m.subscribersOf id' := by
  by_cases h : id' = id
  · subst h
    simp [update, subscribersOf, AList.lookup_erase]
  · simp [update, subscribersOf, AList.lookup_erase_ne h, h]

@[simp] theorem sent_update (m : SharedSessionMap D Sub) (id : SessionId) (d : D) :
    (m.update id d).2 = (m.subscribersOf id).map fun sender => (sender, d) := rfl

@[simp] theorem lookup_pruneBelow (m : SharedSessionMap D Sub) (p id : SessionId) :
    (m.pruneBelow p).sessionMap.lookup id = if p.n ≤ id.n then m.sessionMap.lookup id else none := by
  simp only [pruneBelow, AList.lookup_retain]
  cases m.sessionMap.lookup id <;> by_cases h : p.n ≤ id.n <;> simp [Option.filter, h]

@[simp] theorem subscribersOf_pruneBelow (m : SharedSessionMap D Sub) (p id : SessionId) :
    (m.pruneBelow p).subscribersOf id = if p.n ≤ id.n then m.subscribersOf id else [] := by
  simp only [pruneBelow, subscribersOf, AList.lookup_retain]
  cases m.subscribers.lookup id <;> by_cases h : p.n ≤ id.n <;> simp [Option.filter, h]

theorem mem_subscribersOf_update {m : SharedSessionMap D Sub} {id id' : SessionId} {d : D}
    {sender : Sub} :
    sender ∈ (m.update id d).1.subscribersOf id' ↔ id' ≠ id ∧ sender ∈ m.subscribersOf id' := by
  rw [subscribersOf_update]
  split_ifs with hid <;> simp [hid]

theorem mem_subscribersOf_pruneBelow {m : SharedSessionMap D Sub} {p id : SessionId}
    {sender : Sub} :
    sender ∈ (m.pruneBelow p).subscribersOf id ↔ p.n ≤ id.n ∧ sender ∈ m.subscribersOf id := by
  rw [subscribersOf_pruneBelow]
  split_ifs with hle <;> simp [hle]

theorem subscribeToInsertion_of_some {m : SharedSessionMap D Sub} {id : SessionId} {d : D}
    (h : m.sessionMap.lookup id = some d) (sender : Sub) :
    m.subscribeToInsertion id sender = (m, [(sender, d)]) := by
  simp [subscribeToInsertion, h]

theorem subscribeToInsertion_of_none {m : SharedSessionMap D Sub} {id : SessionId}
    (h : m.sessionMap.lookup id = none) (sender : Sub) :
    (m.subscribeToInsertion id sender).2 = [] ∧
      (m.subscribeToInsertion id sender).1.sessionMap = m.sessionMap ∧
      ∀ id', (m.subscribeToInsertion id sender).1.subscribersOf id' =
        if id' = id then m.subscribersOf id ++ [sender] else m.subscribersOf id' := by
  refine ⟨by simp [subscribeToInsertion, h], by simp [subscribeToInsertion, h], fun id' => ?_⟩
  by_cases hid : id' = id
  · subst hid
    simp [subscribeToInsertion, h, subscribersOf, AList.lookup_insert]
  · simp [subscribeToInsertion, h, subscribersOf, AList.lookup_insert_ne hid, hid]

theorem mem_subscribersOf_subscribeToInsertion {m : SharedSessionMap D Sub} {id id' : SessionId}
    (h : m.sessionMap.lookup id = none) {sender s : Sub} :
    s ∈ (m.subscribeToInsertion id sender).1.subscribersOf id' ↔
      s ∈ m.subscribersOf id' ∨ (id' = id ∧ s = sender) := by
  rw [(subscribeToInsertion_of_none h sender).2.2 id']
  split_ifs with hid
  · subst hid
    simp
  · simp [hid]

theorem runOps_concat (m : SharedSessionMap D Sub) (ops : List (MapOp D Sub)) (op : MapOp D Sub) :
    runOps m (ops ++ [op]) =
      (((runOps m ops).1.apply op).1, (runOps m ops).2 ++ ((runOps m ops).1.apply op).2) := by
  rw [runOps_append]
  simp [runOps]

end SharedSessionMap

open SharedSessionMap

/-! ## Every subscriber is served once -/

/-- Every subscription brings a channel of its own: no sender subscribes twice. -/
def FreshSenders (ops : List (MapOp D Sub)) : Prop :=
  ∀ (pre : List (MapOp D Sub)) (id : SessionId) (sender : Sub) (post : List (MapOp D Sub)),
    ops = pre ++ .subscribeToInsertion id sender :: post →
      ∀ id', .subscribeToInsertion id' sender ∉ pre

/-- Sessions are stored in increasing order, each at or above every pruning bound so far. -/
def Ascending (ops : List (MapOp D Sub)) : Prop :=
  ∀ (pre : List (MapOp D Sub)) (id : SessionId) (d : D) (post : List (MapOp D Sub)),
    ops = pre ++ .update id d :: post →
      (∀ id' d', .update id' d' ∈ pre → id'.n < id.n) ∧ ∀ p, .pruneBelow p ∈ pre → p.n ≤ id.n

theorem FreshSenders.of_append {ops rest : List (MapOp D Sub)} (h : FreshSenders (ops ++ rest)) :
    FreshSenders ops := by
  intro pre id sender post hops
  exact h pre id sender (post ++ rest) (by rw [hops, List.append_assoc, List.cons_append])

/-- What the map holds after the operations `pre`, with `out` the messages sent: stored data
comes from an update; a waiting sender subscribed to its session, waits there once and only
there, and has not been sent anything; each sender is sent one message at most, data stored for
the session it subscribed to; and a subscriber is served, waits, or its session was pruned. -/
structure Serves (pre : List (MapOp D Sub)) (m : SharedSessionMap D Sub)
    (out : List (Sub × D)) : Prop where
  stored : ∀ id d, m.sessionMap.lookup id = some d → .update id d ∈ pre
  pending : ∀ id sender, sender ∈ m.subscribersOf id → .subscribeToInsertion id sender ∈ pre
  pending_nodup : ∀ id, (m.subscribersOf id).Nodup
  pending_unique : ∀ id id' sender, sender ∈ m.subscribersOf id → sender ∈ m.subscribersOf id' →
    id = id'
  pending_not_sent : ∀ id sender, sender ∈ m.subscribersOf id → sender ∉ out.map Prod.fst
  sent_nodup : (out.map Prod.fst).Nodup
  sent : ∀ sender d, (sender, d) ∈ out →
    ∃ id, .subscribeToInsertion id sender ∈ pre ∧ .update id d ∈ pre
  waiting : ∀ id sender, .subscribeToInsertion id sender ∈ pre →
    sender ∈ out.map Prod.fst ∨ sender ∈ m.subscribersOf id ∨
      ∃ p, .pruneBelow p ∈ pre ∧ id.n < p.n

theorem serves_new : Serves ([] : List (MapOp D Sub)) new [] where
  stored id d h := by simp [new] at h
  pending id sender h := by simp [new, subscribersOf] at h
  pending_nodup id := by simp [new, subscribersOf]
  pending_unique id id' sender h := by simp [new, subscribersOf] at h
  pending_not_sent id sender h := by simp [new, subscribersOf] at h
  sent_nodup := List.nodup_nil
  sent sender d h := by cases h
  waiting id sender h := by cases h

variable {pre : List (MapOp D Sub)} {m : SharedSessionMap D Sub} {out : List (Sub × D)}

/-- An update serves every sender waiting for the session. -/
theorem Serves.update (h : Serves pre m out) (id : SessionId) (d : D) :
    Serves (pre ++ [.update id d]) (m.update id d).1 (out ++ (m.update id d).2) where
  stored id' d' hl := by
    rw [lookup_update] at hl
    split_ifs at hl with hid
    · cases hl
      subst hid
      exact List.mem_append_right _ (List.mem_singleton_self _)
    · exact List.mem_append_left _ (h.stored id' d' hl)
  pending id' sender hs := by
    rw [subscribersOf_update] at hs
    split_ifs at hs with hid
    · cases hs
    · exact List.mem_append_left _ (h.pending id' sender hs)
  pending_nodup id' := by
    rw [subscribersOf_update]
    split_ifs
    · exact List.nodup_nil
    · exact h.pending_nodup id'
  pending_unique id₁ id₂ sender h₁ h₂ :=
    h.pending_unique id₁ id₂ sender (mem_subscribersOf_update.mp h₁).2
      (mem_subscribersOf_update.mp h₂).2
  pending_not_sent id' sender hs := by
    rw [subscribersOf_update] at hs
    split_ifs at hs with hid
    · cases hs
    · -- a sender waiting elsewhere is not among those served now
      have hnot : sender ∉ m.subscribersOf id := fun hin =>
        hid (h.pending_unique id' id sender hs hin)
      simp only [sent_update, List.map_append, List.map_map, List.mem_append, not_or]
      exact ⟨h.pending_not_sent id' sender hs, by simpa using hnot⟩
  sent_nodup := by
    simp only [sent_update, List.map_append, List.map_map]
    rw [List.nodup_append]
    refine ⟨h.sent_nodup, by simpa [Function.comp_def] using h.pending_nodup id, ?_⟩
    intro a ha b hb hab
    subst hab
    exact h.pending_not_sent id a (by simpa using hb) ha
  sent sender d' hs := by
    rcases List.mem_append.mp hs with hs | hs
    · obtain ⟨id', hsub, hupd⟩ := h.sent sender d' hs
      exact ⟨id', List.mem_append_left _ hsub, List.mem_append_left _ hupd⟩
    · simp only [sent_update, List.mem_map, Prod.mk.injEq] at hs
      obtain ⟨sender', hin, rfl, rfl⟩ := hs
      exact ⟨id, List.mem_append_left _ (h.pending id sender' hin),
        List.mem_append_right _ (List.mem_singleton_self _)⟩
  waiting id' sender hsub := by
    have hsub' : MapOp.subscribeToInsertion id' sender ∈ pre := by
      simpa using hsub
    rcases h.waiting id' sender hsub' with hout | hwait | ⟨p, hp, hlt⟩
    · exact Or.inl (by simp only [List.map_append, List.mem_append]; exact Or.inl hout)
    · by_cases hid : id' = id
      · subst hid
        left
        simp only [sent_update, List.map_append, List.map_map, List.mem_append]
        exact Or.inr (by simpa using hwait)
      · exact Or.inr (Or.inl (by rw [subscribersOf_update, if_neg hid]; exact hwait))
    · exact Or.inr (Or.inr ⟨p, List.mem_append_left _ hp, hlt⟩)

/-- Pruning drops stored data and waiting senders below the bound. -/
theorem Serves.pruneBelow (h : Serves pre m out) (p : SessionId) :
    Serves (pre ++ [.pruneBelow p]) (m.pruneBelow p) (out ++ []) where
  stored id d hl := by
    rw [lookup_pruneBelow] at hl
    split_ifs at hl
    exact List.mem_append_left _ (h.stored id d hl)
  pending id sender hs := by
    rw [subscribersOf_pruneBelow] at hs
    split_ifs at hs
    · exact List.mem_append_left _ (h.pending id sender hs)
    · cases hs
  pending_nodup id := by
    rw [subscribersOf_pruneBelow]
    split_ifs
    · exact h.pending_nodup id
    · exact List.nodup_nil
  pending_unique id₁ id₂ sender h₁ h₂ :=
    h.pending_unique id₁ id₂ sender (mem_subscribersOf_pruneBelow.mp h₁).2
      (mem_subscribersOf_pruneBelow.mp h₂).2
  pending_not_sent id sender hs := by
    rw [List.append_nil]
    rw [subscribersOf_pruneBelow] at hs
    split_ifs at hs
    · exact h.pending_not_sent id sender hs
    · cases hs
  sent_nodup := by simpa using h.sent_nodup
  sent sender d hs := by
    obtain ⟨id, hsub, hupd⟩ := h.sent sender d (by simpa using hs)
    exact ⟨id, List.mem_append_left _ hsub, List.mem_append_left _ hupd⟩
  waiting id sender hsub := by
    have hsub' : MapOp.subscribeToInsertion id sender ∈ pre := by simpa using hsub
    rcases h.waiting id sender hsub' with hout | hwait | ⟨p', hp, hlt⟩
    · exact Or.inl (by simpa using hout)
    · -- a waiting sender survives the pruning, or its session was pruned now
      by_cases hle : p.n ≤ id.n
      · exact Or.inr (Or.inl (by rw [subscribersOf_pruneBelow, if_pos hle]; exact hwait))
      · exact Or.inr (Or.inr ⟨p, List.mem_append_right _ (List.mem_singleton_self _), by omega⟩)
    · exact Or.inr (Or.inr ⟨p', List.mem_append_left _ hp, hlt⟩)

/-- A sender that never subscribed is neither waiting nor served. -/
theorem Serves.fresh (h : Serves pre m out) {sender : Sub}
    (hfresh : ∀ id', .subscribeToInsertion id' sender ∉ pre) :
    (∀ id', sender ∉ m.subscribersOf id') ∧ sender ∉ out.map Prod.fst := by
  refine ⟨fun id' hs => hfresh id' (h.pending id' sender hs), fun hs => ?_⟩
  obtain ⟨d, hd⟩ : ∃ d, (sender, d) ∈ out := by simpa using hs
  obtain ⟨id', hsub, -⟩ := h.sent sender d hd
  exact hfresh id' hsub

/-- A fresh subscriber to a stored session is served at once. -/
theorem Serves.subscribe_stored (h : Serves pre m out) {id : SessionId} {sender : Sub} {d : D}
    (hfresh : ∀ id', .subscribeToInsertion id' sender ∉ pre)
    (hl : m.sessionMap.lookup id = some d) :
    Serves (pre ++ [.subscribeToInsertion id sender]) m (out ++ [(sender, d)]) where
  stored id' d' hl' := List.mem_append_left _ (h.stored id' d' hl')
  pending id' s hs := List.mem_append_left _ (h.pending id' s hs)
  pending_nodup := h.pending_nodup
  pending_unique := h.pending_unique
  pending_not_sent id' s hs := by
    have hne : s ≠ sender := fun hs' => (h.fresh hfresh).1 id' (hs' ▸ hs)
    simp only [List.map_append, List.mem_append, not_or]
    exact ⟨h.pending_not_sent id' s hs, by simpa using hne⟩
  sent_nodup := by
    rw [List.map_append, List.nodup_append]
    refine ⟨h.sent_nodup, by simp, ?_⟩
    intro a ha b hb hab
    simp only [List.map_cons, List.map_nil, List.mem_singleton] at hb
    exact (h.fresh hfresh).2 (hb ▸ hab ▸ ha)
  sent s d' hs := by
    rcases List.mem_append.mp hs with hs | hs
    · obtain ⟨id', hsub, hupd⟩ := h.sent s d' hs
      exact ⟨id', List.mem_append_left _ hsub, List.mem_append_left _ hupd⟩
    · simp only [List.mem_singleton, Prod.mk.injEq] at hs
      rw [hs.1, hs.2]
      exact ⟨id, List.mem_append_right _ (List.mem_singleton_self _),
        List.mem_append_left _ (h.stored id d hl)⟩
  waiting id' s hsub := by
    rcases List.mem_append.mp hsub with hsub | hsub
    · rcases h.waiting id' s hsub with hout | hwait | ⟨p, hp, hlt⟩
      · exact Or.inl (by simp only [List.map_append, List.mem_append]; exact Or.inl hout)
      · exact Or.inr (Or.inl hwait)
      · exact Or.inr (Or.inr ⟨p, List.mem_append_left _ hp, hlt⟩)
    · simp only [List.mem_singleton, MapOp.subscribeToInsertion.injEq] at hsub
      obtain ⟨rfl, rfl⟩ := hsub
      exact Or.inl (by simp)

/-- A fresh subscriber to a session that is not stored waits for it. -/
theorem Serves.subscribe_waiting (h : Serves pre m out) {id : SessionId} {sender : Sub}
    (hfresh : ∀ id', .subscribeToInsertion id' sender ∉ pre)
    (hl : m.sessionMap.lookup id = none) :
    Serves (pre ++ [.subscribeToInsertion id sender]) (m.subscribeToInsertion id sender).1 out where
  stored id' d' hl' :=
    List.mem_append_left _ (h.stored id' d' ((subscribeToInsertion_of_none hl sender).2.1 ▸ hl'))
  pending id' s hs := by
    rcases (mem_subscribersOf_subscribeToInsertion hl).mp hs with hs | ⟨rfl, rfl⟩
    · exact List.mem_append_left _ (h.pending id' s hs)
    · exact List.mem_append_right _ (List.mem_singleton_self _)
  pending_nodup id' := by
    rw [(subscribeToInsertion_of_none hl sender).2.2 id']
    split_ifs with hid
    · subst hid
      rw [List.nodup_append]
      refine ⟨h.pending_nodup _, List.nodup_singleton sender, ?_⟩
      intro a ha b hb hab
      rw [List.mem_singleton] at hb
      subst hb hab
      exact (h.fresh hfresh).1 _ ha
    · exact h.pending_nodup id'
  pending_unique id₁ id₂ s h₁ h₂ := by
    -- the new sender waits only for this session, the others where they waited
    rcases (mem_subscribersOf_subscribeToInsertion hl).mp h₁ with h₁' | ⟨hid₁, hs₁⟩ <;>
      rcases (mem_subscribersOf_subscribeToInsertion hl).mp h₂ with h₂' | ⟨hid₂, hs₂⟩
    · exact h.pending_unique id₁ id₂ s h₁' h₂'
    · exact absurd (hs₂ ▸ h₁') ((h.fresh hfresh).1 id₁)
    · exact absurd (hs₁ ▸ h₂') ((h.fresh hfresh).1 id₂)
    · rw [hid₁, hid₂]
  pending_not_sent id' s hs := by
    rcases (mem_subscribersOf_subscribeToInsertion hl).mp hs with hs | ⟨-, rfl⟩
    · exact h.pending_not_sent _ s hs
    · exact (h.fresh hfresh).2
  sent_nodup := h.sent_nodup
  sent s d' hs := by
    obtain ⟨id', hsub, hupd⟩ := h.sent s d' hs
    exact ⟨id', List.mem_append_left _ hsub, List.mem_append_left _ hupd⟩
  waiting id' s hsub := by
    rcases List.mem_append.mp hsub with hsub | hsub
    · rcases h.waiting id' s hsub with hout | hwait | ⟨p, hp, hlt⟩
      · exact Or.inl hout
      · -- waiting lists only grow
        exact Or.inr (Or.inl ((mem_subscribersOf_subscribeToInsertion hl).mpr (.inl hwait)))
      · exact Or.inr (Or.inr ⟨p, List.mem_append_left _ hp, hlt⟩)
    · simp only [List.mem_singleton, MapOp.subscribeToInsertion.injEq] at hsub
      obtain ⟨rfl, rfl⟩ := hsub
      exact Or.inr (Or.inl ((mem_subscribersOf_subscribeToInsertion hl).mpr (.inr ⟨rfl, rfl⟩)))

/-- A fresh subscriber is served at once when its session is stored, and waits otherwise. -/
theorem Serves.subscribeToInsertion (h : Serves pre m out) (id : SessionId) (sender : Sub)
    (hfresh : ∀ id', .subscribeToInsertion id' sender ∉ pre) :
    Serves (pre ++ [.subscribeToInsertion id sender]) (m.subscribeToInsertion id sender).1
      (out ++ (m.subscribeToInsertion id sender).2) := by
  cases hl : m.sessionMap.lookup id with
  | some d =>
    rw [subscribeToInsertion_of_some hl]
    exact h.subscribe_stored hfresh hl
  | none =>
    rw [(subscribeToInsertion_of_none hl sender).1, List.append_nil]
    exact h.subscribe_waiting hfresh hl

theorem Serves.apply (h : Serves pre m out) (op : MapOp D Sub)
    (hfresh : ∀ id sender, op = .subscribeToInsertion id sender →
      ∀ id', .subscribeToInsertion id' sender ∉ pre) :
    Serves (pre ++ [op]) (m.apply op).1 (out ++ (m.apply op).2) := by
  cases op with
  | update id d => exact h.update id d
  | pruneBelow p => exact h.pruneBelow p
  | subscribeToInsertion id sender => exact h.subscribeToInsertion id sender (hfresh id sender rfl)

theorem serves_runOps (ops : List (MapOp D Sub)) (hfresh : FreshSenders ops) :
    Serves ops (runOps new ops).1 (runOps new ops).2 := by
  induction ops using List.reverseRecOn with
  | nil => exact serves_new
  | append_singleton ops op ih =>
    rw [runOps_concat]
    exact (ih hfresh.of_append).apply op fun id sender hop id' =>
      hfresh ops id sender [] (by rw [hop]) id'

/-- A sender subscribes once, so a subscription of it anywhere is the one at hand. -/
theorem FreshSenders.eq_of_mem {ops pre post : List (MapOp D Sub)} {id id' : SessionId}
    {sender : Sub} (h : FreshSenders ops) (hops : ops = pre ++ .subscribeToInsertion id sender :: post)
    (hmem : .subscribeToInsertion id' sender ∈ ops) : id' = id := by
  rw [hops, List.mem_append, List.mem_cons] at hmem
  rcases hmem with hpre | hself | hpost
  · exact absurd hpre (h pre id sender post hops id')
  · exact (MapOp.subscribeToInsertion.inj hself).1
  · obtain ⟨a, b, rfl⟩ := List.mem_iff_append.mp hpost
    have hlater := h (pre ++ .subscribeToInsertion id sender :: a) id' sender b
      (by rw [hops, List.append_assoc, List.cons_append]) id
    exact absurd (List.mem_append_right _ List.mem_cons_self) hlater

/-- The subscribers of the shared session map. When every subscription brings its own channel
and sessions are stored in increasing order, each at or above every pruning bound so far,
every sender receives one message at most, data stored for the session it subscribed to, and
it receives that data whenever its session is stored at the subscription or is stored
later. -/
theorem runOps_serves_subscribers (ops : List (MapOp D Sub)) (hfresh : FreshSenders ops)
    (hasc : Ascending ops) :
    ((runOps new ops).2.map Prod.fst).Nodup ∧
      (∀ sender d, (sender, d) ∈ (runOps new ops).2 →
        ∃ id, .subscribeToInsertion id sender ∈ ops ∧ .update id d ∈ ops) ∧
      ∀ pre id sender post d, ops = pre ++ .subscribeToInsertion id sender :: post →
        ((runOps new pre).1.sessionMap.lookup id = some d ∨ .update id d ∈ post) →
        (sender, d) ∈ (runOps new ops).2 := by
  have hs := serves_runOps ops hfresh
  refine ⟨hs.sent_nodup, hs.sent, fun pre id sender post d hops hserve => ?_⟩
  -- the messages of a prefix of the run are among the run's messages
  have hprefix : ∀ ops₁ ops₂, ops = ops₁ ++ ops₂ →
      ∀ x ∈ (runOps new ops₁).2, x ∈ (runOps new ops).2 := by
    intro ops₁ ops₂ hsplit x hx
    rw [hsplit, runOps_append]
    exact List.mem_append_left _ hx
  rcases hserve with hstored | hlater
  · -- the session is there: the sender is served at once
    apply hprefix (pre ++ [.subscribeToInsertion id sender]) post (by rw [hops]; simp)
    rw [runOps_concat]
    simp [SharedSessionMap.apply, subscribeToInsertion_of_some hstored]
  · obtain ⟨mid, post', rfl⟩ := List.mem_iff_append.mp hlater
    have hops' : ops = (pre ++ .subscribeToInsertion id sender :: mid) ++ .update id d :: post' := by
      rw [hops]
      simp
    have hsv := serves_runOps _ (FreshSenders.of_append (hops' ▸ hfresh))
    obtain ⟨hbelow, hpruned⟩ := hasc _ id d post' hops'
    rcases hsv.waiting id sender (by simp) with hout | hwait | ⟨p, hp, hlt⟩
    · -- served before: then its session was stored before, which the order forbids
      obtain ⟨d', hd'⟩ : ∃ d', (sender, d') ∈
          (runOps new (pre ++ .subscribeToInsertion id sender :: mid)).2 := by
        simpa using hout
      obtain ⟨id', hsub, hupd⟩ := hsv.sent sender d' hd'
      have hid : id' = id := hfresh.eq_of_mem hops (by rw [hops']; exact List.mem_append_left _ hsub)
      subst hid
      exact absurd (hbelow id' d' hupd) (Nat.lt_irrefl _)
    · -- still waiting: the update of its session serves it
      apply hprefix (pre ++ .subscribeToInsertion id sender :: mid ++ [.update id d]) post'
        (by rw [hops']; simp)
      rw [runOps_concat]
      simp only [SharedSessionMap.apply, sent_update, List.mem_append, List.mem_map,
        Prod.mk.injEq, and_true, exists_eq_right]
      exact Or.inr hwait
    · exact absurd (hpruned p hp) (by omega)


/-! ## Subscriptions do not touch the stored data -/

def MapOp.isSubscription : MapOp D Sub → Bool
  | .subscribeToInsertion _ _ => true
  | _ => false

@[simp] theorem runOps_nil (m : SharedSessionMap D Sub) : runOps m [] = (m, []) := rfl

theorem runOps_cons (m : SharedSessionMap D Sub) (op : MapOp D Sub) (ops : List (MapOp D Sub)) :
    runOps m (op :: ops) =
      ((runOps (m.apply op).1 ops).1, (m.apply op).2 ++ (runOps (m.apply op).1 ops).2) := by
  rw [← List.singleton_append, runOps_append]
  simp [runOps]

/-- The stored data after a run is that after its operations other than subscriptions. -/
theorem sessionMap_runOps_filter : ∀ (ops : List (MapOp D Sub)) (m₁ m₂ : SharedSessionMap D Sub),
    m₁.sessionMap = m₂.sessionMap →
    (runOps m₁ ops).1.sessionMap =
      (runOps m₂ (ops.filter fun op => !op.isSubscription)).1.sessionMap
  | [], _, _, h => h
  | op :: ops, m₁, m₂, h => by
    cases op with
    | update id d =>
      simp only [List.filter_cons, MapOp.isSubscription, Bool.not_false, if_true, runOps_cons]
      apply sessionMap_runOps_filter ops
      simp [SharedSessionMap.apply, SharedSessionMap.update, h]
    | pruneBelow p =>
      simp only [List.filter_cons, MapOp.isSubscription, Bool.not_false, if_true, runOps_cons]
      apply sessionMap_runOps_filter ops
      simp [SharedSessionMap.apply, SharedSessionMap.pruneBelow, h]
    | subscribeToInsertion id sender =>
      simp only [List.filter_cons, MapOp.isSubscription, Bool.not_true, Bool.false_eq_true,
        if_false, runOps_cons]
      apply sessionMap_runOps_filter ops
      -- a subscription leaves the stored data as it was
      cases hl : m₁.sessionMap.lookup id with
      | some d => rw [SharedSessionMap.apply, subscribeToInsertion_of_some hl]; exact h
      | none => rw [SharedSessionMap.apply, (subscribeToInsertion_of_none hl sender).2.1]; exact h

/-- Interleaving subscriptions keeps the order of the stored sessions. -/
theorem Ascending.of_filter {ops : List (MapOp D Sub)}
    (h : Ascending (ops.filter fun op => !op.isSubscription)) : Ascending ops := by
  intro pre id d post hops
  have hfilter : (ops.filter fun op => !op.isSubscription) =
      (pre.filter fun op => !op.isSubscription) ++ .update id d ::
        (post.filter fun op => !op.isSubscription) := by
    rw [hops, List.filter_append, List.filter_cons]
    rfl
  obtain ⟨hupd, hprune⟩ := h _ id d _ hfilter
  refine ⟨fun id' d' hmem => hupd id' d' ?_, fun p hmem => hprune p ?_⟩ <;>
    exact List.mem_filter.mpr ⟨hmem, rfl⟩

/-- Every update of `ops` is below `b`, and so is every pruning bound. -/
def AllBelow (b : Nat) (ops : List (MapOp D Sub)) : Prop :=
  (∀ id d, .update id d ∈ ops → id.n < b) ∧ ∀ p, .pruneBelow p ∈ ops → p.n < b

/-- Every update of `ops` is at `b` or above. -/
def AllAtLeast (b : Nat) (ops : List (MapOp D Sub)) : Prop :=
  ∀ id d, .update id d ∈ ops → b ≤ id.n

theorem AllBelow.append {b : Nat} {ops₁ ops₂ : List (MapOp D Sub)} (h₁ : AllBelow b ops₁)
    (h₂ : AllBelow b ops₂) : AllBelow b (ops₁ ++ ops₂) := by
  refine ⟨fun id d hmem => ?_, fun p hmem => ?_⟩ <;> rcases List.mem_append.mp hmem with hmem | hmem
  · exact h₁.1 id d hmem
  · exact h₂.1 id d hmem
  · exact h₁.2 p hmem
  · exact h₂.2 p hmem

theorem AllBelow.mono {b b' : Nat} {ops : List (MapOp D Sub)} (h : AllBelow b ops) (hb : b ≤ b') :
    AllBelow b' ops :=
  ⟨fun id d hmem => lt_of_lt_of_le (h.1 id d hmem) hb, fun p hmem => lt_of_lt_of_le (h.2 p hmem) hb⟩

theorem AllAtLeast.append {b : Nat} {ops₁ ops₂ : List (MapOp D Sub)} (h₁ : AllAtLeast b ops₁)
    (h₂ : AllAtLeast b ops₂) : AllAtLeast b (ops₁ ++ ops₂) := by
  intro id d hmem
  rcases List.mem_append.mp hmem with hmem | hmem
  · exact h₁ id d hmem
  · exact h₂ id d hmem

theorem AllAtLeast.mono {b b' : Nat} {ops : List (MapOp D Sub)} (h : AllAtLeast b' ops)
    (hb : b ≤ b') : AllAtLeast b ops :=
  fun id d hmem => le_trans hb (h id d hmem)

/-- An update followed by no other update is in order. -/
theorem ascending_update_cons {id : SessionId} {d : D} {ops : List (MapOp D Sub)}
    (h : ∀ id' d', .update id' d' ∉ ops) : Ascending (.update id d :: ops) := by
  intro pre id₀ d₀ post hops
  cases pre with
  | nil => simp
  | cons x pre =>
    simp only [List.cons_append, List.cons.injEq] at hops
    exact absurd (by rw [hops.2]; simp) (h id₀ d₀)

theorem Ascending.append {ops₁ ops₂ : List (MapOp D Sub)} {b : Nat} (h₁ : Ascending ops₁)
    (h₂ : Ascending ops₂) (hb₁ : AllBelow b ops₁) (hb₂ : AllAtLeast b ops₂) :
    Ascending (ops₁ ++ ops₂) := by
  intro pre id d post hops
  rcases List.append_eq_append_iff.mp hops with ⟨a, rfl, hsnd⟩ | ⟨c, hfst, hc⟩
  · -- the update lies in the second part, above everything of the first
    obtain ⟨hupd, hprune⟩ := h₂ a id d post hsnd
    have hid : b ≤ id.n := hb₂ id d (by simp [hsnd])
    refine ⟨fun id' d' hmem => ?_, fun p hmem => ?_⟩
    · rcases List.mem_append.mp hmem with hmem | hmem
      · exact lt_of_lt_of_le (hb₁.1 id' d' hmem) hid
      · exact hupd id' d' hmem
    · rcases List.mem_append.mp hmem with hmem | hmem
      · exact le_of_lt (lt_of_lt_of_le (hb₁.2 p hmem) hid)
      · exact hprune p hmem
  · cases c with
    | nil =>
      -- the update opens the second part
      simp only [List.nil_append, List.append_nil] at hc hfst
      subst hfst
      have hid : b ≤ id.n := hb₂ id d (by simp [← hc])
      exact ⟨fun id' d' hmem => lt_of_lt_of_le (hb₁.1 id' d' hmem) hid,
        fun p hmem => le_of_lt (lt_of_lt_of_le (hb₁.2 p hmem) hid)⟩
    | cons x c =>
      -- the update lies in the first part
      simp only [List.cons_append, List.cons.injEq] at hc
      obtain ⟨rfl, -⟩ := hc
      exact h₁ pre id d c hfst

end Selendra.SessionMap
